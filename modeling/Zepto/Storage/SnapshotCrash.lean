import Zepto.Storage.SnapshotPublish

/-!
# Crashes inside a snapshot

A crash leaves the state after some first operations of `do_snapshot`. Up to the renaming of
`CURRENT` these stay below the new generation directory and at one temporary file (`Quiet`), so the
last published snapshot is still there. Without one, the directory of an unfinished run makes the
root invalid for `resolve_snapshot`: only the points before it is made and after it is removed are
safe (`recovers_iff`).
-/

namespace Zepto.Storage

open SnapshotTask List Zepto.Lib FileSystem

namespace SnapshotJob

variable {order : FileSystem.RemovalOrder} {fs : FileSystem} {job : SnapshotJob} {op : FsOp}
  {done : List FsOp}

/-! ## What the operations touch -/

section

variable {p : Path} {task : SnapshotTask} {n : Nat} {before after : List SnapshotTask}
  {body : List FsOp}

def startOps : List FsOp := [.mkdir [], .mkdir generationsPath]

theorem length_generation (job : SnapshotJob) : job.generation.length = 2 := rfl

theorem not_below_generation (h : p.length < 2) : ¬job.generation <+: p := by
  intro hp
  have := hp.length_le
  rw [length_generation] at this
  omega

theorem currentTemporary_ne : job.currentTemporary ≠ currentPath := by
  intro h
  exact temporaryName_ne (c := 'T') rfl (by decide) (cons.inj h).1

/-- The operation stays below the generation directory or at the temporary file of `CURRENT`, and
keeps the generation directory. -/
def Own (job : SnapshotJob) (op : FsOp) : Prop :=
  (∀ p ∈ op.touches, job.generation <+: p ∨ p = job.currentTemporary) ∧
    job.generation ∉ op.overwrites

theorem own_of_touches (h : ∀ p ∈ op.touches,
    (job.generation <+: p ∧ 3 ≤ p.length) ∨ p = job.currentTemporary) : job.Own op := by
  refine ⟨fun p hp => (h p hp).imp_left (·.1), fun hp => ?_⟩
  have hlen := job.length_generation
  rcases h _ (mem_touches_of_overwrites hp) with h | h
  · omega
  · rw [h] at hlen
    exact absurd hlen (by simp [currentTemporary])

theorem prefix_of_mem_innerTasks (htask : task ∈ job.innerTasks) (hop : op ∈ task.ops)
    (hp : p ∈ op.touches) : job.generation <+: p := by
  cases task with
  | mkdir q =>
    rw [SnapshotTask.ops, mem_singleton] at hop
    subst hop
    rw [mem_singleton.mp hp]
    obtain ⟨ok, h⟩ | ⟨d, h⟩ | ⟨key, c, h⟩ | h := mem_innerTasks htask <;> cases h
    exact prefix_append _ _
  | file temporary destination texts =>
    refine (written_innerTasks htask ?_).1
    rcases touches_of_mem_atomicWrite hop hp with rfl | rfl <;>
      simp [written]
  | check ok => cases hop

theorem mem_written_of_abandoned (hop : op ∈ task.abandoned n) (hp : p ∈ op.touches) :
    p ∈ task.written := by
  cases task with
  | mkdir q => cases hop
  | file temporary destination texts =>
    rw [touches_of_mem_abandonedWrite hop hp]
    exact mem_cons_self
  | check ok => cases hop

theorem own_innerTasks (htask : task ∈ job.innerTasks) (hop : op ∈ task.ops) : job.Own op := by
  refine ⟨fun p hp => .inl (prefix_of_mem_innerTasks htask hop hp), fun hp => ?_⟩
  have := (written_innerTasks htask (mem_written_of_overwrites hop hp)).2
  have := job.length_generation
  omega

theorem own_abandoned (htask : task ∈ job.innerTasks ∨ task = job.currentTask)
    (hop : op ∈ task.abandoned n) : job.Own op := by
  refine own_of_touches fun p hp => ?_
  rcases htask with htask | rfl
  · exact .inl (written_innerTasks htask (mem_written_of_abandoned hop hp))
  · exact .inr (touches_of_mem_abandonedWrite hop hp)

/-! ## The course of a snapshot -/

/-- A run finds its generation directory, fails and removes the directory, or publishes. -/
inductive Course (order : RemovalOrder) (fs : FileSystem) (job : SnapshotJob) :
    List FsOp → Prop where
  | blocked (h : fs.lookup job.generation ≠ none) : Course order fs job startOps
  | failed (body : List FsOp) (h : fs.lookup job.generation = none)
      (hown : ∀ op ∈ body, job.Own op)
      (htemporary : ∀ fs' : FileSystem, fs'.lookup job.currentTemporary = none →
        (fs'.run body).lookup job.currentTemporary = none) :
      Course order fs job (startOps ++ .mkdir job.generation :: body ++
        (fs.run (startOps ++ .mkdir job.generation :: body)).removeAll order job.generation)
  | published (h : fs.lookup job.generation = none)
      (hok : check false ∉ job.tasks) :
      Course order fs job
        (startOps ++ .mkdir job.generation :: job.tasks.flatMap SnapshotTask.ops ++
          cleanupOps order (fs.run (startOps ++ .mkdir job.generation ::
            job.tasks.flatMap SnapshotTask.ops)) job.generationName)

theorem tasks_split (h : job.tasks = before ++ task :: after) :
    (∀ t ∈ before, t ∈ job.innerTasks) ∧ (task ∈ job.innerTasks ∨ task = job.currentTask) := by
  have h : job.innerTasks ++ [job.currentTask] = before ++ task :: after := h
  rcases eq_nil_or_concat after with rfl | ⟨after, last, rfl⟩
  · obtain ⟨hbefore, htask⟩ := append_inj' h rfl
    rw [hbefore]
    exact ⟨fun t ht => ht, .inr (cons.inj htask).1.symm⟩
  · rw [concat_eq_append, ← cons_append, ← append_assoc] at h
    rw [(append_inj' h rfl).1]
    exact ⟨fun t ht => mem_append_left _ ht, .inl (by simp)⟩

theorem lookup_currentTemporary_of_failed (h : job.tasks = before ++ task :: after)
    (hfs : fs.lookup job.currentTemporary = none) :
    (fs.run (before.flatMap SnapshotTask.ops ++ task.abandoned n)).lookup job.currentTemporary =
      none := by
  have hout : ¬job.generation <+: job.currentTemporary := not_below_generation (show 1 < 2 by omega)
  obtain ⟨hbefore, htask⟩ := tasks_split h
  rw [run_append]
  have hfs : (fs.run (before.flatMap SnapshotTask.ops)).lookup job.currentTemporary = none := by
    rw [lookup_run_of_untouched, hfs]
    intro op hop hp
    obtain ⟨t, ht, hop⟩ := mem_flatMap.mp hop
    exact hout (prefix_of_mem_innerTasks (hbefore t ht) hop hp)
  rcases htask with htask | rfl
  · rw [lookup_run_of_untouched, hfs]
    intro op hop hp
    exact hout (written_innerTasks htask (mem_written_of_abandoned hop hp)).1
  · exact lookup_abandonedWrite hfs

theorem course_ops (order : RemovalOrder) (fs : FileSystem) (job : SnapshotJob) :
    Course order fs job (job.ops order fs) := by
  unfold ops
  by_cases hgen : fs.lookup job.generation = none
  · rw [if_neg (not_not.mpr hgen)]
    rcases run_cases job.tasks job.failure with ⟨hrun, hok⟩ | hrun
    · rw [hrun]
      exact .published hgen hok
    obtain ⟨before, task, after, n, htasks, hrun⟩ := hrun
    rw [hrun]
    refine .failed _ hgen ?_ fun fs' h => lookup_currentTemporary_of_failed htasks h
    intro op hop
    rcases mem_append.mp hop with hop | hop
    · obtain ⟨t, ht, hop⟩ := mem_flatMap.mp hop
      exact own_innerTasks ((tasks_split htasks).1 t ht) hop
    · exact own_abandoned (tasks_split htasks).2 hop
  · rw [if_pos hgen]
    exact .blocked hgen

/-! ## Before `CURRENT` is renamed -/

/-- What the operations before the renaming of `CURRENT` do to the files. -/
structure Quiet (fs : FileSystem) (job : SnapshotJob) (done : List FsOp) : Prop where
  touches : ∀ op ∈ done, ∀ p ∈ op.touches, p = [] ∨ p = generationsPath ∨
    job.generation <+: p ∨ p = job.currentTemporary
  overwrites : ∀ op ∈ done, ∀ p ∈ op.overwrites, fs.lookup job.generation = none ∧
    (job.generation <+: p ∨ p = job.currentTemporary)
  start : .mkdir job.generation ∈ done → ∀ op ∈ startOps, op ∈ done
  generation : (fs.run done).lookup job.generation = none ↔ fs.lookup job.generation = none ∧
    (.mkdir job.generation ∉ done ∨ .remove job.generation ∈ done)
  temporary : (fs.run done).lookup job.generation = none →
    fs.lookup job.currentTemporary = none → (fs.run done).lookup job.currentTemporary = none

theorem generation_ne : job.generation ≠ [] ∧ job.generation ≠ generationsPath :=
  ⟨nofun, fun h => absurd (congrArg length h) (by simp [generation, generationPath,
    generationsPath])⟩

theorem quiet_start (h : ∀ op ∈ done, op ∈ startOps) : Quiet fs job done := by
  have hover : ∀ op ∈ done, ∀ p, p ∉ op.overwrites := by
    intro op hop p hp
    rcases mem_pair.mp (h op hop) with rfl | rfl <;> cases hp
  have htouch : ∀ op ∈ done, ∀ p ∈ op.touches, p = [] ∨ p = generationsPath := by
    intro op hop p hp
    rcases mem_pair.mp (h op hop) with rfl | rfl
    · exact .inl (mem_singleton.mp hp)
    · exact .inr (mem_singleton.mp hp)
  have hgen : .mkdir job.generation ∉ done := fun hmem =>
    (htouch _ hmem _ (mem_singleton_self _)).elim generation_ne.1 generation_ne.2
  refine ⟨fun op hop p hp => (htouch op hop p hp).imp_right .inl,
    fun op hop p hp => absurd hp (hover op hop p), fun hmem => absurd hmem hgen, ?_, ?_⟩
  · rw [lookup_run_of_kept fun op hop => hover op hop _, if_neg fun h => hgen h.2]
    exact ⟨fun h => ⟨h, .inl hgen⟩, (·.1)⟩
  intro _ htmp
  rw [lookup_run_of_untouched, htmp]
  intro op hop hp
  have hname : ¬(job.currentTemporary = [] ∨ job.currentTemporary = generationsPath) := by
    rintro (h | h)
    · cases h
    · exact temporaryName_ne (c := 's') rfl (by decide) (cons.inj h).1
  exact hname (htouch op hop _ hp)

section

variable (hgen : fs.lookup job.generation = none)

include hgen

theorem quiet_own (hown : ∀ op ∈ body, job.Own op) :
    Quiet fs job (startOps ++ .mkdir job.generation :: body) := by
  have hcases : ∀ op ∈ startOps ++ .mkdir job.generation :: body, op = .mkdir [] ∨
      op = .mkdir generationsPath ∨ op = .mkdir job.generation ∨ op ∈ body := by
    simp [startOps]
  have hover : ∀ op ∈ startOps ++ .mkdir job.generation :: body, ∀ p ∈ op.overwrites,
      op ∈ body := by
    intro op hop p hp
    rcases hcases op hop with rfl | rfl | rfl | hop
    iterate 3 cases hp
    exact hop
  have hdir : (fs.run (startOps ++ .mkdir job.generation :: body)).lookup job.generation =
      some .dir := by
    rw [lookup_run_of_kept fun op hop hp => (hown op (hover op hop _ hp)).2 hp,
      if_pos ⟨hgen, by simp⟩]
  refine ⟨?_, ?_, fun _ op hop => mem_append_left _ hop, ?_, ?_⟩
  · intro op hop p hp
    rcases hcases op hop with rfl | rfl | rfl | hop
    · exact .inl (mem_singleton.mp hp)
    · exact .inr (.inl (mem_singleton.mp hp))
    · exact .inr (.inr (.inl (mem_singleton.mp hp ▸ prefix_refl _)))
    · exact .inr (.inr ((hown op hop).1 p hp))
  · intro op hop p hp
    exact ⟨hgen, (hown op (hover op hop p hp)).1 p (mem_touches_of_overwrites hp)⟩
  · rw [hdir]
    refine ⟨nofun, fun h => ?_⟩
    rcases h.2 with h | h
    · exact absurd (by simp) h
    · exact absurd (mem_singleton_self _) (hown _ (hover _ h _ (mem_singleton_self _))).2
  · rw [hdir]
    exact nofun

theorem quiet_removed {body removal : List FsOp} (hown : ∀ op ∈ body, job.Own op)
    (htemporary : ∀ fs' : FileSystem, fs'.lookup job.currentTemporary = none →
      (fs'.run body).lookup job.currentTemporary = none)
    (hremoval : ∀ op ∈ removal, ∃ p, op = .remove p ∧ job.generation <+: p)
    (hremoved : .remove job.generation ∈ removal) :
    Quiet fs job (startOps ++ .mkdir job.generation :: body ++ removal) := by
  have hq := quiet_own hgen hown
  have hremove : ∀ op ∈ removal, ∃ p, op = .remove p := fun op hop =>
    (hremoval op hop).imp fun _ h => h.1
  refine ⟨?_, ?_, ?_, ?_, ?_⟩
  · intro op hop p hp
    rcases mem_append.mp hop with hop | hop
    · exact hq.touches op hop p hp
    · obtain ⟨q, rfl, hbelow⟩ := hremoval op hop
      rw [mem_singleton.mp hp]
      exact .inr (.inr (.inl hbelow))
  · intro op hop p hp
    rcases mem_append.mp hop with hop | hop
    · exact hq.overwrites op hop p hp
    · obtain ⟨q, rfl, hbelow⟩ := hremoval op hop
      rw [mem_singleton.mp hp]
      exact ⟨hgen, .inl hbelow⟩
  · intro _ op hop
    exact mem_append_left _ (mem_append_left _ hop)
  · rw [run_append]
    refine iff_of_true (lookup_run_of_removed hremove (.inr hremoved)) ⟨hgen, .inr ?_⟩
    exact mem_append_right _ hremoved
  · intro _ htmp
    rw [run_append]
    refine lookup_run_of_removed hremove (.inl ?_)
    have hstart : (fs.run (startOps ++ [.mkdir job.generation])).lookup job.currentTemporary =
        none := by
      rw [run_append]
      have h : Quiet fs job startOps := quiet_start fun _ h => h
      have hnone := h.temporary (h.generation.mpr ⟨hgen, .inl ?_⟩) htmp
      · rw [lookup_run_of_untouched, hnone]
        intro op hop hp
        rw [mem_singleton.mp hop] at hp
        have hlen := congrArg length (mem_singleton.mp hp)
        exact absurd hlen (by simp [currentTemporary, generation, generationPath])
      · intro hmem
        rcases mem_pair.mp hmem with h | h
        · exact generation_ne.1 (FsOp.mkdir.inj h)
        · exact generation_ne.2 (FsOp.mkdir.inj h)
    exact htemporary _ hstart

theorem quiet_before (hown : ∀ op ∈ body, job.Own op)
    (h : done <+: startOps ++ .mkdir job.generation :: body) : Quiet fs job done := by
  rcases prefix_append_cases h with h | ⟨t, ht, rfl⟩
  · exact quiet_start fun op hop => h.subset hop
  cases t with
  | nil => exact quiet_start fun op hop => by simpa using hop
  | cons op t =>
    obtain ⟨rfl, htail⟩ := cons_prefix_cons.mp ht
    exact quiet_own hgen fun op hop => hown op (htail.subset hop)

end

theorem not_holds_of_mem_cleanupOps (h : op ∈ cleanupOps order fs job.generationName)
    (hp : p ∈ op.overwrites) : ¬job.Holds p := by
  rw [cleanupOps, mem_flatMap] at h
  obtain ⟨name, hname, hop⟩ := h
  have hname := mem_of_mem_drop hname
  obtain ⟨q, rfl, -, hbelow⟩ := mem_removeAll.mp hop
  rw [mem_singleton.mp hp]
  have hlen := hbelow.length_le
  have htwo : (generationPath name).length = job.generation.length := rfl
  have hlength := job.length_generation
  rintro (rfl | rfl | hown)
  · rw [length_nil] at hlen
    omega
  · have : currentPath.length = 1 := rfl
    omega
  have heq : generationPath name = job.generation :=
    (prefix_of_prefix_length_le hbelow hown htwo.le).eq_of_length htwo
  have : name = job.generationName := (cons.inj (cons.inj heq).2).1
  simp [this] at hname

/-- A crash is before the renaming of `CURRENT`, or after all tasks. -/
theorem course_before (h : done <+: job.ops order fs) :
    Quiet fs job done ∨ fs.lookup job.generation = none ∧ check false ∉ job.tasks ∧
      ∃ t, done = startOps ++ .mkdir job.generation :: job.tasks.flatMap SnapshotTask.ops ++ t ∧
        ∀ op ∈ t, ∀ p ∈ op.overwrites, ¬job.Holds p := by
  have hcourse := course_ops order fs job
  generalize job.ops order fs = ops at h hcourse
  cases hcourse with
  | blocked hgen => exact .inl (quiet_start fun op hop => h.subset hop)
  | failed body hgen hown htemporary =>
    left
    rcases prefix_append_cases h with h | ⟨t, ht, rfl⟩
    · exact quiet_before hgen hown h
    have hremoval : ∀ op ∈ t, ∃ p, op = .remove p ∧ job.generation <+: p := by
      intro op hop
      obtain ⟨p, rfl, -, hp⟩ := mem_removeAll.mp (ht.subset hop)
      exact ⟨p, rfl, hp⟩
    by_cases hremoved : .remove job.generation ∈ t
    · exact quiet_removed hgen hown htemporary hremoval hremoved
    refine quiet_own hgen fun op hop => ?_
    rcases mem_append.mp hop with hop | hop
    · exact hown op hop
    obtain ⟨p, rfl, hp⟩ := hremoval op hop
    refine ⟨fun q hq => .inl (mem_singleton.mp hq ▸ hp), fun hq => ?_⟩
    rw [mem_singleton.mp hq] at hremoved
    exact hremoved hop
  | published hgen hok =>
    have hsplit : job.tasks.flatMap SnapshotTask.ops =
        (job.innerTasks.flatMap SnapshotTask.ops ++ [.write job.currentTemporary [],
          .write job.currentTemporary (job.generationName ++ "\n".toList)]) ++
          [.rename job.currentTemporary currentPath] := by
      show (job.innerTasks ++ [job.currentTask]).flatMap _ = _
      rw [flatMap_append, append_assoc]
      rfl
    have hown : ∀ op ∈ job.innerTasks.flatMap SnapshotTask.ops ++ [.write job.currentTemporary [],
        .write job.currentTemporary (job.generationName ++ "\n".toList)], job.Own op := by
      intro op hop
      rcases mem_append.mp hop with hop | hop
      · obtain ⟨task, htask, hop⟩ := mem_flatMap.mp hop
        exact own_innerTasks htask hop
      · rcases mem_pair.mp hop with rfl | rfl <;>
          exact own_of_touches fun _ hp => .inr (mem_singleton.mp hp)
    rcases prefix_append_cases h with h | ⟨t, ht, rfl⟩
    · rw [hsplit, ← cons_append, ← append_assoc] at h
      rcases prefix_append_cases h with h | ⟨t, ht, rfl⟩
      · exact .inl (quiet_before hgen hown h)
      cases t with
      | nil => exact .inl (quiet_before hgen hown (by simp))
      | cons op t =>
        obtain ⟨rfl, htail⟩ := cons_prefix_cons.mp ht
        rw [prefix_nil.mp htail]
        refine .inr ⟨hgen, hok, [], ?_, nofun⟩
        rw [hsplit, append_nil]
        rfl
    · exact .inr ⟨hgen, hok, t, rfl, fun op hop p hp =>
        not_holds_of_mem_cleanupOps (ht.subset hop) hp⟩

theorem Quiet.rename_notMem (h : Quiet fs job done) :
    .rename job.currentTemporary currentPath ∉ done := by
  intro hmem
  rcases h.touches _ hmem currentPath (by simp [FsOp.touches]) with h | h | h | h
  · cases h
  · exact absurd h (by decide)
  · exact not_below_generation (by simp [currentPath]) h
  · exact currentTemporary_ne h.symm

/-- The renaming of `CURRENT` publishes the snapshot. -/
theorem published_run {t : List FsOp} (hroot : ∀ text, fs.lookup [] ≠ some (.file text))
    (hgen : fs.lookup job.generation = none) (hok : check false ∉ job.tasks)
    (ht : ∀ op ∈ t, ∀ p ∈ op.overwrites, ¬job.Holds p) :
    Published (fs.run (startOps ++ .mkdir job.generation ::
      job.tasks.flatMap SnapshotTask.ops ++ t)) job := by
  have hover : ∀ p, ∀ op ∈ startOps ++ [.mkdir job.generation], p ∉ op.overwrites := by
    simp [startOps, FsOp.overwrites]
  rw [run_append, append_cons, run_append]
  refine .run (published_tasks ?_ ?_ hok) ht
  · rw [lookup_run_of_kept (hover _)]
    rcases hfs : fs.lookup [] with _ | _ | text
    · exact if_pos ⟨rfl, by simp [startOps]⟩
    · rfl
    · exact absurd hfs (hroot text)
  · rw [lookup_run_of_kept (hover _)]
    exact if_pos ⟨hgen, by simp⟩

/-- A published snapshot outlives what comes before renaming `CURRENT`. -/
theorem Quiet.published (h : Quiet fs job done) {last : SnapshotJob} (hlast : Published fs last) :
    Published (fs.run done) last := by
  refine hlast.run fun op hop p hp hholds => ?_
  obtain ⟨hgen, hp⟩ := h.overwrites op hop p hp
  have hne : job.generation ≠ last.generation := by
    intro heq
    rw [heq, hlast.generation] at hgen
    cases hgen
  rcases hholds with rfl | rfl | hholds
  · rcases hp with hp | hp
    · exact not_below_generation (by simp) hp
    · cases hp
  · rcases hp with hp | hp
    · exact not_below_generation (by simp [currentPath]) hp
    · exact currentTemporary_ne hp.symm
  rcases hp with hp | rfl
  · have hlen : job.generation.length = last.generation.length := by
      rw [length_generation, length_generation]
    exact hne ((prefix_of_prefix_length_le hp hholds hlen.le).eq_of_length hlen)
  · exact not_below_generation (by simp [currentTemporary]) hholds

end

end SnapshotJob

/-! ## Without a published snapshot -/

/-- No snapshot is published; a temporary file in the root has the generation directory of its
run. -/
structure Unpublished (fs : FileSystem) : Prop where
  root : ∀ text, fs.lookup [] ≠ some (.file text)
  generations : ∀ text, fs.lookup generationsPath ≠ some (.file text)
  current : fs.lookup currentPath = none
  stray : ∀ p ∈ fs.children [], p ≠ generationsPath → fs.children generationsPath ≠ []
  listed : fs.children generationsPath ≠ [] →
    fs.lookup [] = some .dir ∧ fs.lookup generationsPath = some .dir

namespace Unpublished

variable {fs : FileSystem}

theorem hasUnpublishedContent_iff (h : Unpublished fs) :
    hasUnpublishedContent fs ↔ fs.children generationsPath ≠ [] := by
  rw [hasUnpublishedContent, any_eq_true]
  constructor
  · rintro ⟨p, hp, hcond⟩
    by_cases hpath : p = generationsPath
    · subst hpath
      intro hnil
      obtain ⟨hlookup, -⟩ := mem_children.mp hp
      rcases hfs : fs.lookup generationsPath with _ | _ | text
      · exact hlookup hfs
      · simp [hfs, hnil] at hcond
      · exact h.generations text hfs
    · exact h.stray p hp hpath
  · intro hne
    refine ⟨generationsPath, mem_children.mpr ⟨?_, nofun, rfl⟩, by simp [hne]⟩
    rw [(h.listed hne).2]
    exact nofun

theorem resolve (h : Unpublished fs) : resolveSnapshot fs =
      if fs.children generationsPath = [] then .missing
      else .invalid "snapshot root has data but no CURRENT manifest" := by
  have hiff := h.hasUnpublishedContent_iff
  unfold resolveSnapshot
  rcases hfs : fs.lookup [] with _ | _ | text
  · have hnil : fs.children generationsPath = [] := by
      by_contra hne
      simp [(h.listed hne).1] at hfs
    rw [if_pos hnil]
  · simp only [h.current]
    by_cases hnil : fs.children generationsPath = []
    · rw [if_pos hnil, if_neg fun hc => hiff.mp hc hnil]
    · rw [if_neg hnil, if_pos (hiff.mpr hnil)]
  · exact absurd hfs (h.root text)

end Unpublished

namespace SnapshotJob.Quiet

variable {fs : FileSystem} {job : SnapshotJob} {done : List FsOp}

section

variable (h : Quiet fs job done)

include h

/-- Only its own paths, the root and `generations` can change. -/
theorem lookup_eq {p : Path} (hroot : p ≠ []) (hgens : p ≠ generationsPath)
    (hgen : ¬job.generation <+: p) (htmp : p ≠ job.currentTemporary) :
    (fs.run done).lookup p = fs.lookup p := by
  refine lookup_run_of_untouched fun op hop hp => ?_
  rcases h.touches op hop p hp with h | h | h | h
  · exact hroot h
  · exact hgens h
  · exact hgen h
  · exact htmp h

theorem lookup_dir {p : Path} (hp : p = [] ∨ p = generationsPath) : (fs.run done).lookup p =
      if fs.lookup p = none ∧ .mkdir p ∈ done then some .dir else fs.lookup p := by
  refine lookup_run_of_kept fun op hop hover => ?_
  rcases (h.overwrites op hop p hover).2 with hgen | htmp
  · refine not_below_generation ?_ hgen
    rcases hp with rfl | rfl
    · simp
    · simp [generationsPath]
  · rcases hp with rfl | rfl
    · cases htmp
    · exact temporaryName_ne (c := 's') rfl (by decide) (cons.inj htmp).1.symm

theorem children_generations :
    (fs.run done).children generationsPath = [] ↔ fs.children generationsPath = [] ∧
      (.mkdir job.generation ∉ done ∨ .remove job.generation ∈ done) := by
  have hchild : ∀ q : Path, q ≠ [] → q.dropLast = generationsPath → q ≠ job.generation →
      (fs.run done).lookup q = fs.lookup q := by
    intro q hq hlast hne
    have hlen : q.length = 2 := by
      have := congrArg length hlast
      rw [length_dropLast] at this
      have : generationsPath.length = 1 := rfl
      omega
    have hout {p : Path} (hp : p.length = 1) : q ≠ p := by
      rintro rfl
      omega
    refine h.lookup_eq hq (hout rfl) (fun hbelow => ?_) (hout rfl)
    refine hne (hbelow.eq_of_length ?_).symm
    rw [hlen, length_generation]
  have hmem : job.generation ≠ [] ∧ job.generation.dropLast = generationsPath :=
    ⟨generation_ne.1, rfl⟩
  have hnil : ∀ fs' : FileSystem, fs'.children generationsPath = [] ↔
      ∀ q : Path, q ≠ [] → q.dropLast = generationsPath → fs'.lookup q = none := by
    intro fs'
    rw [eq_nil_iff_forall_not_mem]
    refine forall_congr' fun q => ?_
    rw [mem_children]
    tauto
  rw [hnil, hnil]
  constructor
  · intro hall
    obtain ⟨hgen, hpoint⟩ := h.generation.mp (hall _ hmem.1 hmem.2)
    refine ⟨fun q hq hlast => ?_, hpoint⟩
    by_cases hne : q = job.generation
    · rw [hne, hgen]
    · rw [← hchild q hq hlast hne]
      exact hall q hq hlast
  · rintro ⟨hall, hpoint⟩ q hq hlast
    by_cases hne : q = job.generation
    · rw [hne]
      exact h.generation.mpr ⟨hall _ hmem.1 hmem.2, hpoint⟩
    · rw [hchild q hq hlast hne]
      exact hall q hq hlast

theorem unpublished (hfs : Unpublished fs) : Unpublished (fs.run done) := by
  have hchildren := h.children_generations
  have hkeep : fs.children generationsPath ≠ [] → (fs.run done).children generationsPath ≠ [] :=
    fun hne hnil => hne (hchildren.mp hnil).1
  refine ⟨?_, ?_, ?_, ?_, ?_⟩
  · intro text
    rw [h.lookup_dir (.inl rfl)]
    split
    · exact nofun
    · exact hfs.root text
  · intro text
    rw [h.lookup_dir (.inr rfl)]
    split
    · exact nofun
    · exact hfs.generations text
  · have hsame : (fs.run done).lookup currentPath = fs.lookup currentPath :=
      h.lookup_eq nofun (by decide) (not_below_generation (by simp [currentPath]))
        currentTemporary_ne.symm
    rw [hsame, hfs.current]
  · intro p hp hpath hnil
    obtain ⟨hsome, hne, hlast⟩ := mem_children.mp hp
    have hlen : p.length < 2 := by
      have := congrArg length hlast
      rw [length_dropLast, length_nil] at this
      omega
    have hbefore : fs.lookup p = none := by
      by_contra hsome
      exact hkeep (hfs.stray p (mem_children.mpr ⟨hsome, hne, hlast⟩) hpath) hnil
    by_cases htmp : p = job.currentTemporary
    · subst htmp
      have hgen : (fs.run done).lookup job.generation = none := by
        by_contra hsome
        refine absurd (mem_children.mpr ⟨hsome, generation_ne.1, rfl⟩) ?_
        show _ ∉ (fs.run done).children generationsPath
        rw [hnil]
        exact not_mem_nil
      exact hsome (h.temporary hgen hbefore)
    · rw [h.lookup_eq hne hpath (not_below_generation hlen) htmp] at hsome
      exact hsome hbefore
  · intro hne
    by_cases hbefore : fs.children generationsPath = []
    · have hmkdir : .mkdir job.generation ∈ done := by
        by_contra hno
        exact hne (hchildren.mpr ⟨hbefore, .inl hno⟩)
      have hdir : ∀ p, p = [] ∨ p = generationsPath → .mkdir p ∈ startOps →
          (∀ text, fs.lookup p ≠ some (.file text)) → (fs.run done).lookup p = some .dir := by
        intro p hp hstart hfile
        rw [h.lookup_dir hp]
        rcases hlookup : fs.lookup p with _ | _ | text
        · exact if_pos ⟨rfl, h.start hmkdir _ hstart⟩
        · rfl
        · exact absurd hlookup (hfile text)
      exact ⟨hdir _ (.inl rfl) (by simp [startOps]) hfs.root,
        hdir _ (.inr rfl) (by simp [startOps]) hfs.generations⟩
    · obtain ⟨hroot, hgens⟩ := hfs.listed hbefore
      rw [h.lookup_dir (.inl rfl), h.lookup_dir (.inr rfl), hroot, hgens]
      exact ⟨rfl, rfl⟩

end

end SnapshotJob.Quiet

/-! ## Runs with crashes -/

section

variable {fs : FileSystem} {last : Option SnapshotJob} {order : FileSystem.RemovalOrder}
  {job : SnapshotJob}

/-- The states that calls of `do_snapshot` lead to, each maybe cut off; and the last snapshot that
`CURRENT` was let name. -/
inductive History (order : RemovalOrder) : FileSystem → Option SnapshotJob → Prop where
  | fresh (fs : FileSystem) (hroot : ∀ text, fs.lookup [] ≠ some (.file text))
      (hempty : ∀ p, p ≠ [] → fs.lookup p = none) : History order fs none
  | call {fs : FileSystem} {last : Option SnapshotJob} (h : History order fs last)
      (job : SnapshotJob) (k : Nat) :
      History order (fs.run ((job.ops order fs).take k))
        (if .rename job.currentTemporary currentPath ∈ (job.ops order fs).take k then some job
          else last)

def Consistent (fs : FileSystem) : Option SnapshotJob → Prop
  | some last => Published fs last
  | none => Unpublished fs

theorem Consistent.root (h : Consistent fs last) : ∀ text, fs.lookup [] ≠ some (.file text) := by
  cases last with
  | none => exact Unpublished.root h
  | some last =>
    rw [Published.root h]
    exact nofun

/-- A crash before the renaming of `CURRENT` keeps the snapshot there was; after it, the new one is
published. -/
theorem Consistent.crash (h : Consistent fs last) {done : List FsOp}
    (hdone : done <+: job.ops order fs) :
    job.Quiet fs done ∧ .rename job.currentTemporary currentPath ∉ done ∧
        Consistent (fs.run done) last ∨
      .rename job.currentTemporary currentPath ∈ done ∧ Published (fs.run done) job := by
  rcases SnapshotJob.course_before hdone with hq | ⟨hgen, hok, t, rfl, ht⟩
  · refine .inl ⟨hq, hq.rename_notMem, ?_⟩
    cases last with
    | none => exact hq.unpublished h
    | some last => exact hq.published h
  refine .inr ⟨?_, SnapshotJob.published_run h.root hgen hok ht⟩
  have hmem : .rename job.currentTemporary currentPath ∈ job.tasks.flatMap ops :=
    mem_flatMap.mpr ⟨job.currentTask, mem_append_right _ mem_cons_self,
      mem_append_right _ mem_cons_self⟩
  exact mem_append_left _ (mem_append_right _ (mem_cons_of_mem _ hmem))

theorem History.consistent (h : History order fs last) : Consistent fs last := by
  induction h with
  | fresh fs hroot hempty =>
    have hnil : ∀ p : Path, fs.children p = [] := by
      intro p
      rw [eq_nil_iff_forall_not_mem]
      intro q hq
      obtain ⟨hsome, hne, -⟩ := mem_children.mp hq
      exact hsome (hempty q hne)
    refine ⟨hroot, fun text => ?_, hempty _ nofun, fun p hp => ?_, fun hne => absurd (hnil _) hne⟩
    · rw [hempty generationsPath nofun]
      exact nofun
    · rw [hnil] at hp
      cases hp
  | call _ job k ih =>
    rcases ih.crash ( take_prefix k _) with ⟨-, hno, h⟩ | ⟨hmem, h⟩
    · rw [if_neg hno]
      exact h
    · rw [if_pos hmem]
      exact h

/-- After a crash `resolve_snapshot` finds the last snapshot or the one being written, with its
files; or nothing, if there was none. -/
def Recovers (order : RemovalOrder) (fs : FileSystem) (last : Option SnapshotJob)
    (job : SnapshotJob) (k : Nat) : Prop :=
  let crashed := fs.run ((job.ops order fs).take k)
  match resolveSnapshot crashed with
  | .missing => last = none
  | .ready generation partitionCount rowCount =>
    ∃ s, (last = some s ∨ s = job) ∧ generation = s.generation ∧
      partitionCount = s.partitionCount ∧ rowCount = s.rowCount ∧
      ∀ f ∈ s.files, crashed.lookup f.1 = some (.file f.2)
  | .invalid _ => False

/-- Where a crash does no harm: `CURRENT` was there, or is by now; or there is no generation
directory. -/
def SafePoint (order : RemovalOrder) (fs : FileSystem) (job : SnapshotJob) (k : Nat) :
    Prop :=
  let done := (job.ops order fs).take k
  fs.lookup currentPath ≠ none ∨ .rename job.currentTemporary currentPath ∈ done ∨
    hasUnpublishedContent fs = false ∧
      (.mkdir job.generation ∉ done ∨ .remove job.generation ∈ done)

theorem Published.recovers {s : SnapshotJob} {k : Nat}
    (h : Published (fs.run ((job.ops order fs).take k)) s) (hs : last = some s ∨ s = job) :
    Recovers order fs last job k := by
  simp only [Recovers, h.resolve]
  exact ⟨s, hs, rfl, rfl, rfl, h.files⟩

theorem recovers_iff {order : RemovalOrder} {fs : FileSystem}
    {last : Option SnapshotJob} (h : History order fs last) (job : SnapshotJob) (k : Nat) :
    Recovers order fs last job k ↔ SafePoint order fs job k := by
  have hfs := h.consistent
  rcases hfs.crash ( take_prefix k (job.ops order fs)) with ⟨hq, hno, hcrash⟩ | ⟨hmem, hcrash⟩
  · cases last with
    | some last =>
      refine iff_of_true (Published.recovers hcrash (.inl rfl)) (.inl ?_)
      rw [Published.current hfs]
      exact nofun
    | none =>
      -- Without `CURRENT`, everything depends on whether there is a generation directory.
      have hiff := Unpublished.hasUnpublishedContent_iff hfs
      have hcurrent : ¬fs.lookup currentPath ≠ none := not_not.mpr (Unpublished.current hfs)
      simp only [Recovers, SafePoint, Unpublished.resolve hcrash, hno, hcurrent, false_or]
      rw [← Bool.not_eq_true, hiff, not_not, ← hq.children_generations]
      split
      next heq =>
        split at heq
        next hnil =>
          exact iff_of_true trivial hnil
        · cases heq
      next heq =>
        split at heq <;> cases heq
      next heq =>
        split at heq
        · cases heq
        next hne =>
          exact iff_of_false id hne
  · exact iff_of_true (Published.recovers hcrash (.inr rfl)) (.inr (.inl hmem))

def listedOrder : RemovalOrder := ⟨id, fun l => .refl l⟩

def emptySnapshot : SnapshotJob := ⟨1, 1, 0, 1, 2, [], nodup_nil, none⟩

/-- A row with a price. -/
def priceSnapshot (sequence : BitVec 64) : SnapshotJob where
  now := 1
  pid := 1
  sequence
  completeSequence := 3
  currentSequence := 4
  partitions := [⟨⟨1, 1, 0⟩, 1, [⟨"price".toList, [], "12345678".toList, 5⟩], nodup_singleton _⟩]
  partitions_nodup := nodup_singleton _
  failure := none

/-- A crash while the column of the second snapshot is written. -/
theorem recovers_second_snapshot :
    let fs := (∅ : FileSystem).run (((priceSnapshot 1).ops listedOrder ∅).take 100)
    Recovers listedOrder fs (some (priceSnapshot 1)) (priceSnapshot 2) 8 := by
  have h : History listedOrder ∅ none := .fresh ∅ nofun fun _ _ => rfl
  have h := h.call (priceSnapshot 1) 100
  rw [if_pos (by decide +kernel)] at h
  exact (recovers_iff h (priceSnapshot 2) 8).mpr (.inl (by decide +kernel))

theorem first_generation_is_invalid : History listedOrder ∅ none ∧
      resolveSnapshot ((∅ : FileSystem).run ((emptySnapshot.ops listedOrder ∅).take 3)) =
        .invalid "snapshot root has data but no CURRENT manifest" ∧
      ¬Recovers listedOrder ∅ none emptySnapshot 3 := by
  have hinvalid : resolveSnapshot
      ((∅ : FileSystem).run ((emptySnapshot.ops listedOrder ∅).take 3)) =
      .invalid "snapshot root has data but no CURRENT manifest" := by decide +kernel
  refine ⟨.fresh ∅ nofun fun _ _ => rfl, hinvalid, ?_⟩
  exact id

end

end Zepto.Storage
