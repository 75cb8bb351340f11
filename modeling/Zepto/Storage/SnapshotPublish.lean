import Zepto.Storage.Snapshot

/-!
# Published snapshots

`Published fs job` says that `CURRENT` names the snapshot and that everything of it is there. Then
`resolve_snapshot` finds it (`Published.resolve`), and it stays published while its paths are left
alone (`Published.run`). A run of `do_snapshot` in which no task fails publishes its snapshot
(`published_tasks`): no file it has put in place is written again.
-/

namespace Zepto.Storage

open List Zepto.Lib SnapshotTask FileSystem

/-! ## Names -/

namespace SnapshotJob

variable {job : SnapshotJob}

/-- The part of the name after `gen-`. -/
def nameTail (job : SnapshotJob) : Text :=
  decimalInt job.now.toInt ++ "-".toList ++ decimal job.pid.toNat ++ "-".toList ++
    decimal job.sequence.toNat

theorem generationName_eq (job : SnapshotJob) :
    job.generationName = 'g' :: 'e' :: 'n' :: '-' :: job.nameTail := by
  show "gen-".toList ++ decimalInt _ ++ _ ++ _ ++ _ ++ _ = "gen-".toList ++ job.nameTail
  simp [nameTail]

theorem mem_nameTail {c : Char} (h : c ∈ job.nameTail) : (c.isDigit || c = '-') := by
  have hint : c ∈ decimalInt job.now.toInt → c.isDigit ∨ c = '-' := by
    unfold decimalInt
    split
    · rw [mem_cons]
      rintro (rfl | hc)
      · exact .inr rfl
      · exact .inl (isDigit_decimal hc)
    · exact fun hc => .inl (isDigit_decimal hc)
  rw [Bool.or_eq_true, decide_eq_true_eq]
  simp only [nameTail, mem_append] at h
  rcases h with (((h | h) | h) | h) | h
  · exact hint h
  · exact .inr (by simpa using h)
  · exact .inl (isDigit_decimal h)
  · exact .inr (by simpa using h)
  · exact .inl (isDigit_decimal h)

theorem length_decimal_word (x : BitVec 64) : (decimal x.toNat).length ≤ 20 :=
  length_decimal (by omega) (by have := x.isLt; omega)

theorem length_nameTail (job : SnapshotJob) : job.nameTail.length ≤ 63 := by
  have hnow : (decimalInt job.now.toInt).length ≤ 21 := by
    have hlo := BitVec.le_toInt job.now
    have hhi := BitVec.toInt_lt (x := job.now)
    have := length_decimal (n := job.now.toInt.natAbs) (k := 20) (by omega) (by omega)
    unfold decimalInt
    split
    · rw [length_cons]
      omega
    · omega
  have hpid := length_decimal_word job.pid
  have hseq := length_decimal_word job.sequence
  simp only [nameTail, length_append]
  show _ + 1 + _ + 1 + _ ≤ 63
  omega

theorem length_generationName (job : SnapshotJob) :
    4 ≤ job.generationName.length ∧ job.generationName.length ≤ 67 := by
  have := job.length_nameTail
  rw [generationName_eq]
  simp only [length_cons]
  omega

theorem isBlank_generationName {c : Char} (h : c ∈ job.generationName) : isBlank c = false := by
  rw [generationName_eq] at h
  simp only [mem_cons] at h
  rcases h with rfl | rfl | rfl | rfl | h
  iterate 4 decide
  rcases Bool.or_eq_true_iff.mp (mem_nameTail h) with h | h
  · exact isBlank_of_isDigit h
  · rw [of_decide_eq_true h]
    decide

theorem isGenerationName_generationName (job : SnapshotJob) :
    isGenerationName job.generationName := by
  have hlen := job.length_nameTail
  have hne : job.nameTail ≠ [] := by
    intro h
    exact decimal_ne_nil _ (append_eq_nil_iff.mp h).2
  have hpos := length_pos_of_ne_nil hne
  rw [isGenerationName, generationName_eq, decide_eq_true_eq]
  refine ⟨rfl, ?_, ?_, ?_⟩
  · simp only [length_cons]
    omega
  · simp only [length_cons]
    omega
  · rw [all_eq_true]
    exact fun c hc => mem_nameTail hc

end SnapshotJob

/-! ## A published snapshot -/

/-- `CURRENT` names the snapshot and everything of it is there. -/
structure Published (fs : FileSystem) (job : SnapshotJob) : Prop where
  root : fs.lookup [] = some .dir
  current : fs.lookup currentPath = some (.file (job.generationName ++ "\n".toList))
  generation : fs.lookup job.generation = some .dir
  complete : fs.lookup (completePath job.generationName) = some (.file job.manifest)
  files : ∀ f ∈ job.files, fs.lookup f.1 = some (.file f.2)
  counts : job.partitionCount < 2 ^ 64 ∧ job.rowCount < 2 ^ 64

variable {job : SnapshotJob}

theorem resolveManifest_manifest (hp : job.partitionCount < 2 ^ 64) (hr : job.rowCount < 2 ^ 64) :
    resolveManifest job.generationName job.manifest =
      .ready job.generation job.partitionCount job.rowCount := by
  have hshape : job.manifest = snapshotManifestMagic ++ ' ' :: (job.generationName ++ ' ' ::
      (decimal job.partitionCount ++ ' ' :: (decimal job.rowCount ++ ['\n']))) := by
    simp only [SnapshotJob.manifest, append_assoc]
    rfl
  have hlen : job.manifest.length ≠ 0 ∧ job.manifest.length ≤ 512 := by
    have hname := job.length_generationName
    have hp' := length_decimal (n := job.partitionCount) (k := 20) (by omega) (by omega)
    have hr' := length_decimal (n := job.rowCount) (k := 20) (by omega) (by omega)
    rw [hshape]
    simp only [length_append, length_cons, length_nil]
    have : snapshotManifestMagic.length = 17 := by decide
    omega
  have hmagic : ∀ t, readWord (snapshotManifestMagic ++ ' ' :: t) =
      some (snapshotManifestMagic, ' ' :: t) := by
    intro t
    exact readWord_append (by decide) (by decide) (by decide)
  have hname : ∀ t, readWord (' ' :: (job.generationName ++ ' ' :: t)) =
      some (job.generationName, ' ' :: t) := by
    intro t
    refine readWord_append ?_ (fun c hc => SnapshotJob.isBlank_generationName hc) (by decide)
    exact nofun
  have hpart : ∀ t, readNumber (' ' :: (decimal job.partitionCount ++ ' ' :: t)) =
      some (job.partitionCount, ' ' :: t) := by
    intro t
    exact readNumber_decimal hp (by decide)
  have hrow : readNumber (' ' :: (decimal job.rowCount ++ ['\n'])) =
      some (job.rowCount, ['\n']) := by
    exact readNumber_decimal hr (by decide)
  have hend : readWord ['\n'] = none := by decide
  unfold resolveManifest
  rw [if_neg (by omega)]
  simp only [hshape, hmagic, hname, hpart, hrow, Option.bind_eq_bind, Option.bind_some, ne_eq]
  rfl

theorem Published.resolve {fs : FileSystem} (h : Published fs job) :
    resolveSnapshot fs = .ready job.generation job.partitionCount job.rowCount := by
  have hlen := job.length_generationName
  have hread : readWord (job.generationName ++ "\n".toList) =
      some (job.generationName, ['\n']) := by
    refine readWord_append ?_ (fun c hc => SnapshotJob.isBlank_generationName hc) (by decide)
    exact nofun
  have hend : readWord ['\n'] = none := by decide
  have hsize : ¬((job.generationName ++ "\n".toList).length = 0 ∨
      512 < (job.generationName ++ "\n".toList).length) := by
    rw [length_append]
    show ¬(_ + 1 = 0 ∨ 512 < _ + 1)
    omega
  have hgen : fs.lookup (generationPath job.generationName) = some .dir := h.generation
  unfold resolveSnapshot
  simp only [h.root, h.current, if_neg hsize, hread, hend, hgen, h.complete,
    job.isGenerationName_generationName, Option.isSome_none, Bool.false_eq_true, Bool.true_eq_false,
    or_self, if_false]
  exact resolveManifest_manifest h.counts.1 h.counts.2

/-- The paths of a published snapshot: root, `CURRENT` and its generation. -/
def SnapshotJob.Holds (job : SnapshotJob) (p : Path) : Prop :=
  p = [] ∨ p = currentPath ∨ job.generation <+: p

theorem SnapshotJob.generation_prefix_of_mem_files {f : Path × Text}
    (h : f ∈ job.files) : job.generation <+: f.1 := by
  simp only [files, mem_flatMap, mem_map] at h
  obtain ⟨part, -, c, -, rfl⟩ := h
  exact prefix_append _ _

/-- A snapshot stays published while its paths are left alone. -/
theorem Published.run {fs : FileSystem} {ops : List FsOp}
    (h : Published fs job) (hops : ∀ op ∈ ops, ∀ p ∈ op.overwrites, ¬job.Holds p) :
    Published (fs.run ops) job := by
  have keep : ∀ {p e}, job.Holds p → fs.lookup p = some e → (fs.run ops).lookup p = some e :=
    fun hp he => lookup_run_of_some he fun op hop hmem => hops op hop _ hmem hp
  refine ⟨keep (.inl rfl) h.root, keep (.inr (.inl rfl)) h.current,
    keep (.inr (.inr (prefix_refl _))) h.generation,
    keep (.inr (.inr ⟨["_COMPLETE".toList], rfl⟩)) h.complete, ?_, h.counts⟩
  exact fun f hf => keep (.inr (.inr (SnapshotJob.generation_prefix_of_mem_files hf)))
    (h.files f hf)

/-! ## Tasks -/

namespace SnapshotTask

theorem run_cons {task : SnapshotTask} (h : task ≠ check false) (tasks : List SnapshotTask)
    (failure : Option (Nat × Nat)) :
    run (task :: tasks) failure = match failure with
      | some (0, done) => (task.abandoned done, false)
      | failure =>
        let r := run tasks (failure.map fun (n, done) => (n - 1, done))
        (task.ops ++ r.1, r.2) := by
  cases task with
  | check ok =>
    cases ok with
    | false => exact absurd rfl h
    | true => rcases failure with _ | ⟨_ | n, done⟩ <;> rfl
  | mkdir p | file temporary destination texts => rcases failure with _ | ⟨_ | n, done⟩ <;> rfl

/-- Either all tasks are done, or all before one that fails. -/
theorem run_cases (tasks : List SnapshotTask) (failure : Option (Nat × Nat)) :
    (run tasks failure = (tasks.flatMap ops, true) ∧ check false ∉ tasks) ∨
      ∃ before task after done, tasks = before ++ task :: after ∧
        run tasks failure = (before.flatMap ops ++ task.abandoned done, false) := by
  induction tasks generalizing failure with
  | nil => exact .inl ⟨rfl, nofun⟩
  | cons task tasks ih =>
    by_cases hcheck : task = check false
    · subst hcheck
      exact .inr ⟨[], check false, tasks, 0, rfl, rfl⟩
    rw [run_cons hcheck]
    split
    next done =>
      exact .inr ⟨[], task, tasks, done, rfl, rfl⟩
    rcases ih (failure.map fun (n, done) => (n - 1, done)) with ⟨h, hmem⟩ | h
    · refine .inl ⟨by rw [h]; rfl, ?_⟩
      rw [mem_cons, not_or]
      exact ⟨Ne.symm hcheck, hmem⟩
    · obtain ⟨before, failed, after, done, rfl, h⟩ := h
      refine .inr ⟨task :: before, failed, after, done, rfl, ?_⟩
      rw [h, flatMap_cons, append_assoc]

def written : SnapshotTask → List Path
  | file temporary destination _ => [temporary, destination]
  | _ => []

theorem mem_written_of_overwrites {task : SnapshotTask} {op : FsOp} {p : Path} (hop : op ∈ task.ops)
    (hp : p ∈ op.overwrites) : p ∈ task.written := by
  cases task with
  | mkdir q =>
    rw [ops, mem_singleton] at hop
    subst hop
    cases hp
  | file temporary destination texts =>
    exact mem_pair.mpr (touches_of_mem_atomicWrite hop (mem_touches_of_overwrites hp))
  | check ok => cases hop

def Spares : SnapshotTask → SnapshotTask → Prop
  | file _ destination _, task => destination ∉ task.written
  | _, _ => True

/-- If no task writes an earlier file, all files are in place at the end. -/
theorem lookup_run_tasks {tasks : List SnapshotTask} (h : tasks.Pairwise Spares)
    {temporary destination : Path} {texts : List Text} {text : Text}
    (hmem : file temporary destination (texts ++ [text]) ∈ tasks) (fs : FileSystem) :
    (fs.run (tasks.flatMap ops)).lookup destination = some (.file text) := by
  obtain ⟨before, after, rfl⟩ := append_of_mem hmem
  rw [pairwise_append, pairwise_cons] at h
  rw [flatMap_append, flatMap_cons, run_append, run_append]
  refine lookup_run_of_some (lookup_atomicWrite _ _ _ _ _) ?_
  intro op hop hover
  obtain ⟨task, htask, hop⟩ := mem_flatMap.mp hop
  exact h.2.1.1 task htask (mem_written_of_overwrites hop hover)

end SnapshotTask

/-! ## The tasks of a snapshot -/

theorem temporaryName_ne {name name' : Text} {pid sequence : BitVec 64} {c : Char}
    (h : name'.getLast? = some c) (hc : c.isDigit = false) :
    temporaryName name pid sequence ≠ name' := by
  rintro rfl
  rw [temporaryName, getLast?_append_of_ne_nil _ (decimal_ne_nil _)] at h
  rw [isDigit_decimal (mem_of_getLast? h)] at hc
  cases hc

theorem getLast?_bin (name : Text) : (name ++ ".bin".toList).getLast? = some 'n' := by
  rw [getLast?_append_of_ne_nil _ (by decide)]
  rfl

theorem snapshotDir_injective : Function.Injective snapshotDir := by
  rintro ⟨t, s, h⟩ ⟨t', s', h'⟩ heq
  have hword : ∀ {w : Nat} {x y : BitVec w}, decimal x.toNat = decimal y.toNat → x = y :=
    fun hxy => BitVec.eq_of_toNat_eq (decimal_injective hxy)
  simp only [snapshotDir] at heq
  split at heq <;> split at heq
  · simp only [cons.injEq, append_cancel_left_eq, and_true] at heq
    rw [hword heq.1, hword heq.2.1, decimalInt_injective heq.2.2]
  · simp at heq
  · simp at heq
  next ht ht' =>
    simp only [cons.injEq, and_true] at heq
    rw [not_not.mp ht, not_not.mp ht', hword heq.1, decimalInt_injective heq.2]

theorem length_snapshotDir (key : PartitionKey) : 2 ≤ (snapshotDir key).length := by
  unfold snapshotDir
  split <;> simp

namespace SnapshotJob

variable {job : SnapshotJob}

section

variable {key key' : PartitionKey} {parts : List PartitionFiles} {count rows : Nat}
  {task : SnapshotTask} {part : PartitionFiles} {c : ColumnFile} {p : Path}

theorem column_path_inj {key key' : PartitionKey} {name name' : Text}
    (h : job.generation ++ snapshotDir key ++ [name] =
      job.generation ++ snapshotDir key' ++ [name']) : key = key' ∧ name = name' := by
  obtain ⟨hdir, hname⟩ := append_inj' h rfl
  exact ⟨snapshotDir_injective (append_cancel_left hdir), (cons.inj hname).1⟩

theorem mem_visitTasks (h : task ∈ job.visitTasks parts count rows) :
    (∃ ok, task = .check ok) ∨ ∃ part ∈ parts, part.rows ≠ 0 ∧ task ∈ job.partitionTasks part := by
  induction parts generalizing count rows with
  | nil => cases h
  | cons part parts ih =>
    rw [exists_mem_cons_iff, or_left_comm]
    unfold visitTasks at h
    split at h
    · exact .inr (ih h)
    rename_i hrows
    rw [mem_append, mem_cons] at h
    rcases h with h | h | h
    · exact .inl ⟨hrows, h⟩
    · exact .inr (.inl ⟨_, h⟩)
    · exact .inr (ih h)

theorem columnTask_mem_visitTasks {parts : List PartitionFiles} {part : PartitionFiles}
    {c : ColumnFile} {count rows : Nat} (hpart : part ∈ parts.filter (·.rows ≠ 0))
    (hc : c ∈ part.columns) : job.columnTask part.key c ∈ job.visitTasks parts count rows := by
  induction parts generalizing count rows with
  | nil => cases hpart
  | cons first parts ih =>
    unfold visitTasks
    split_ifs with hrows
    · rw [filter_cons_of_neg (by simp [hrows])] at hpart
      exact ih hpart
    rw [filter_cons_of_pos (by simp [hrows])] at hpart
    rcases mem_cons.mp hpart with rfl | hpart
    · exact mem_append_left _ (mem_append_right _ (mem_map_of_mem hc))
    · exact mem_append_right _ (mem_cons_of_mem _ (ih hpart))

theorem mem_partitionTasks (h : task ∈ job.partitionTasks part) :
    (∃ d, task = .mkdir (job.generation ++ d)) ∨
      ∃ c ∈ part.columns, task = job.columnTask part.key c := by
  rw [partitionTasks, mem_append, mem_map, mem_map] at h
  rcases h with ⟨d, -, rfl⟩ | ⟨c, hc, rfl⟩
  · exact .inl ⟨d, rfl⟩
  · exact .inr ⟨c, hc, rfl⟩

theorem spares_columnTask {c' : ColumnFile} (h : key ≠ key' ∨ c.name ≠ c'.name) :
    Spares (job.columnTask key c) (job.columnTask key' c') := by
  show _ ∉ [_, _]
  rw [mem_pair]
  rintro (heq | heq)
  · exact temporaryName_ne (getLast?_bin _) (by decide) (column_path_inj heq).2.symm
  · obtain ⟨hkey, hname⟩ := column_path_inj heq
    exact h.elim (· hkey) (· (append_cancel_right hname))

theorem pairwise_partitionTasks (part : PartitionFiles) :
    (job.partitionTasks part).Pairwise Spares := by
  rw [partitionTasks, pairwise_append]
  refine ⟨?_, ?_, ?_⟩
  · rw [pairwise_map]
    exact .imp (fun _ => trivial) (pairwise_of_forall fun _ _ => trivial)
  · rw [pairwise_map]
    exact (pairwise_map.mp part.columns_nodup).imp fun hne => spares_columnTask (.inr hne)
  · intro task htask task' _
    obtain ⟨d, -, rfl⟩ := mem_map.mp htask
    trivial

theorem pairwise_visitTasks (h : (parts.map (·.key)).Nodup) (count rows : Nat) :
    (job.visitTasks parts count rows).Pairwise Spares := by
  induction parts generalizing count rows with
  | nil => exact .nil
  | cons part parts ih =>
    rw [map_cons, nodup_cons] at h
    unfold visitTasks
    split
    · exact ih h.2 _ _
    rw [pairwise_append, pairwise_cons]
    refine ⟨pairwise_partitionTasks part, ⟨fun _ _ => trivial, ih h.2 _ _⟩, ?_⟩
    intro task htask task' htask'
    obtain ⟨d, rfl⟩ | ⟨c, -, rfl⟩ := mem_partitionTasks htask
    · trivial
    have hchecks : ∀ ok, Spares (job.columnTask part.key c) (.check ok) := fun _ => not_mem_nil
    rcases mem_cons.mp htask' with rfl | htask'
    · exact hchecks _
    obtain ⟨ok, rfl⟩ | ⟨part', hpart', -, htask'⟩ := mem_visitTasks htask'
    · exact hchecks ok
    obtain ⟨d, rfl⟩ | ⟨c', -, rfl⟩ := mem_partitionTasks htask'
    · exact not_mem_nil
    · refine spares_columnTask (.inl fun hkey => h.1 ?_)
      rw [hkey]
      exact mem_map_of_mem hpart'

/-- The tasks before `CURRENT` is written. -/
def innerTasks (job : SnapshotJob) : List SnapshotTask :=
  job.visitTasks job.partitions 0 0 ++ [job.completeTask]

theorem mem_innerTasks (h : task ∈ job.innerTasks) :
    (∃ ok, task = .check ok) ∨ (∃ d, task = .mkdir (job.generation ++ d)) ∨
      (∃ key c, task = job.columnTask key c) ∨ task = job.completeTask := by
  rw [innerTasks, mem_append, mem_singleton] at h
  rcases h with h | h
  · obtain h | ⟨part, -, -, h⟩ := mem_visitTasks h
    · exact .inl h
    · obtain h | ⟨c, -, h⟩ := mem_partitionTasks h
      · exact .inr (.inl h)
      · exact .inr (.inr (.inl ⟨_, _, h⟩))
  · exact .inr (.inr (.inr h))

theorem pairwise_tasks (job : SnapshotJob) : job.tasks.Pairwise Spares := by
  have hcolumn : ∀ {key c} {p : Path}, p.length ≤ 3 →
      job.generation ++ snapshotDir key ++ [c] ≠ p := by
    rintro key c p hp rfl
    have := length_snapshotDir key
    simp only [length_append] at hp
    have : job.generation.length = 2 := rfl
    omega
  show (job.innerTasks ++ [job.currentTask]).Pairwise _
  rw [pairwise_append]
  refine ⟨?_, pairwise_singleton _ _, ?_⟩
  · rw [innerTasks, pairwise_append]
    refine ⟨pairwise_visitTasks job.partitions_nodup 0 0, pairwise_singleton _ _, ?_⟩
    intro task htask task' htask'
    rw [mem_singleton] at htask'
    subst htask'
    obtain ⟨ok, rfl⟩ | ⟨part, -, -, htask⟩ := mem_visitTasks htask
    · trivial
    obtain ⟨d, rfl⟩ | ⟨c, -, rfl⟩ := mem_partitionTasks htask
    · trivial
    · show _ ∉ [_, _]
      rw [mem_pair, not_or]
      exact ⟨hcolumn (le_refl 3), hcolumn (le_refl 3)⟩
  · intro task htask task' htask'
    rw [mem_singleton] at htask'
    subst htask'
    obtain ⟨ok, rfl⟩ | ⟨d, rfl⟩ | ⟨key, c, rfl⟩ | rfl := mem_innerTasks htask
    · trivial
    · trivial
    · show _ ∉ [_, _]
      rw [mem_pair, not_or]
      exact ⟨hcolumn (show 1 ≤ 3 by omega), hcolumn (show 1 ≤ 3 by omega)⟩
    · show _ ∉ [_, _]
      simp [completePath, currentTemporary, currentPath]

theorem counts_of_visitTasks (h : check false ∉ job.visitTasks parts count rows)
    (hc : count < 2 ^ 64) (hr : rows < 2 ^ 64) :
    count + (parts.filter (·.rows ≠ 0)).length < 2 ^ 64 ∧
      rows + ((parts.filter (·.rows ≠ 0)).map (·.rows)).sum < 2 ^ 64 := by
  induction parts generalizing count rows with
  | nil => exact ⟨hc, hr⟩
  | cons part parts ih =>
    unfold visitTasks at h
    split at h
    next hrows =>
      rw [filter_cons_of_neg (by simp [hrows])]
      exact ih h hc hr
    rename_i hrows
    rw [mem_append, mem_cons, not_or, not_or] at h
    obtain ⟨-, hok, hrest⟩ := h
    have hok' : rows + part.rows < 2 ^ 64 ∧ count ≠ 2 ^ 64 - 1 := by
      by_contra hno
      rw [decide_eq_false hno] at hok
      exact hok rfl
    rw [filter_cons_of_pos (by simp [hrows]), length_cons, map_cons, sum_cons]
    have := ih hrest (by omega) hok'.1
    omega

/-- Before `CURRENT` all writes are below the generation directory. -/
theorem written_innerTasks (h : task ∈ job.innerTasks) (hp : p ∈ task.written) :
    job.generation <+: p ∧ 3 ≤ p.length := by
  obtain ⟨ok, rfl⟩ | ⟨d, rfl⟩ | ⟨key, c, rfl⟩ | rfl := mem_innerTasks h
  · cases hp
  · cases hp
  · have hcolumn : ∀ name, job.generation <+: job.generation ++ snapshotDir key ++ [name] ∧
        3 ≤ (job.generation ++ snapshotDir key ++ [name]).length := by
      intro name
      refine ⟨append_assoc _ _ _ ▸ prefix_append _ _, ?_⟩
      have : job.generation.length = 2 := rfl
      simp only [length_append, length_singleton]
      omega
    rcases mem_pair.mp hp with rfl | rfl
    · exact hcolumn _
    · exact hcolumn _
  · rcases mem_pair.mp hp with rfl | rfl
    · exact ⟨prefix_append _ _, le_refl 3⟩
    · exact ⟨⟨["_COMPLETE".toList], rfl⟩, le_refl 3⟩

/-- A snapshot in which nothing fails is published. -/
theorem published_tasks {fs : FileSystem} (hroot : fs.lookup [] = some .dir)
    (hgen : fs.lookup job.generation = some .dir) (hok : check false ∉ job.tasks) :
    Published (fs.run (job.tasks.flatMap SnapshotTask.ops)) job := by
  have hlength : ∀ op ∈ job.tasks.flatMap SnapshotTask.ops, ∀ p ∈ op.overwrites,
      p.length = 1 ∨ 3 ≤ p.length := by
    intro op hop p hp
    obtain ⟨task, htask, hop⟩ := mem_flatMap.mp hop
    have hp := mem_written_of_overwrites hop hp
    rcases mem_append.mp htask with htask | htask
    · exact .inr (written_innerTasks htask hp).2
    · rw [mem_singleton.mp htask] at hp
      rcases mem_pair.mp hp with rfl | rfl <;> exact .inl rfl
  have hfile : ∀ texts {temporary destination text},
      file temporary destination (texts ++ [text]) ∈ job.tasks →
      (fs.run (job.tasks.flatMap SnapshotTask.ops)).lookup destination = some (.file text) :=
    fun _ _ _ _ h => lookup_run_tasks job.pairwise_tasks h fs
  have hvisit : check false ∉ job.visitTasks job.partitions 0 0 := by
    intro h
    exact hok (mem_append_left _ (mem_append_left _ h))
  have hcounts := counts_of_visitTasks hvisit (by omega) (by omega)
  rw [zero_add, zero_add] at hcounts
  refine ⟨?_, ?_, ?_, ?_, ?_, hcounts⟩
  · refine lookup_run_of_some hroot fun op hop hp => ?_
    have := hlength op hop _ hp
    rw [length_nil] at this
    omega
  · exact hfile [[]] (mem_append_right _ mem_cons_self)
  · refine lookup_run_of_some hgen fun op hop hp => ?_
    have := hlength op hop _ hp
    have : job.generation.length = 2 := rfl
    omega
  · exact hfile [[]] (mem_append_left _ (mem_append_right _ mem_cons_self))
  intro f hf
  simp only [files, mem_flatMap, mem_map] at hf
  obtain ⟨part, hpart, c, hc, rfl⟩ := hf
  have hmem : job.columnTask part.key c ∈ job.tasks :=
    mem_append_left _ (mem_append_left _ (columnTask_mem_visitTasks hpart hc))
  exact hfile [[], c.header] hmem

end

end SnapshotJob

end Zepto.Storage
