import Zepto.Ai.SnapshotFormat
import Zepto.Ai.UnitRows

/-!
# Crashes in the middle of a save

A save that stops after any of its file operations leaves the old files, the new files, one file
alone, or the new records beside the old vectors (`saveOps_cases`). Only the last pair can be loaded
and be neither the old snapshot nor the new one: the records then get what the old vectors have at
their places. `snapshot_atomic_iff` says exactly when this cannot happen.
-/

namespace Zepto.Ai

open SnapshotDir List Zepto.Lib SnapshotOp

/-! ## What can be loaded -/

namespace Saved

/-- The checks of `load_from_directory`. -/
structure Loadable (v : Saved) : Prop where
  short : v.ShortStrings
  memories : ∀ r ∈ v.memories, Fits v.embeddingDim r.embedding
  distinct : (v.memories.map (·.memoryId)).Nodup
  cacheEntries : ∀ c ∈ v.cacheEntries, Fits v.embeddingDim c.embedding

end Saved

section

variable {dim : Nat} {e : Embedding}

theorem fits_iff_length : Fits dim e ↔ e.length = 0 ∨ e.length = dim := by
  rw [Fits, length_eq_zero_iff]

theorem mismatch_iff : (!e.isEmpty && e.length ≠ dim) ↔ ¬ Fits dim e := by
  simp [Fits]

theorem indexMemories_isOk {i : Nat} {l : List MemoryRecord} {m : AList (fun _ : Bytes => Nat)} :
    (∃ index, indexMemories dim i l m = .ok index) ↔
      (∀ r ∈ l, Fits dim r.embedding) ∧ (l.map (·.memoryId)).Nodup ∧ ∀ r ∈ l, r.memoryId ∉ m := by
  induction l generalizing i m with
  | nil => exact ⟨fun _ => ⟨nofun, nodup_nil, nofun⟩, fun _ => ⟨m, rfl⟩⟩
  | cons r l ih =>
    unfold indexMemories
    simp only [forall_mem_cons, map_cons, nodup_cons]
    by_cases hfit : Fits dim r.embedding
    · rw [if_neg fun hmis => mismatch_iff.mp hmis hfit]
      by_cases hfresh : r.memoryId ∈ m
      · simp [hfresh]
      rw [if_neg hfresh, ih]
      simp only [hfit, hfresh, true_and, not_false_eq_true, AList.mem_insert, not_or,
        mem_map, not_exists, not_and]
      constructor
      · rintro ⟨hl, hnodup, hrest⟩
        exact ⟨hl, ⟨fun r' hr' => (hrest r' hr').1, hnodup⟩, fun r' hr' => (hrest r' hr').2⟩
      · rintro ⟨hl, ⟨hne, hnodup⟩, hrest⟩
        exact ⟨hl, hnodup, fun r' hr' => ⟨hne r' hr', hrest r' hr'⟩⟩
    · rw [if_pos (mismatch_iff.mpr hfit)]
      simp [hfit]

theorem checkCache_isOk {l : List CacheEntry} :
    checkCache dim l = .ok () ↔ ∀ c ∈ l, Fits dim c.embedding := by
  unfold checkCache
  by_cases h : ∀ c ∈ l, Fits dim c.embedding
  · rw [if_neg]
    · exact iff_of_true rfl h
    · rw [any_eq_true]
      rintro ⟨c, hc, hmis⟩
      exact mismatch_iff.mp hmis (h c hc)
  · rw [if_pos]
    · exact iff_of_false nofun h
    · rw [any_eq_true]
      push Not at h
      obtain ⟨c, hc, hmis⟩ := h
      exact ⟨c, hc, mismatch_iff.mpr hmis⟩

end

namespace Saved

variable {v w : Saved}

/-- The checks look at the sizes of the embeddings and not at the floats. -/
theorem fits_graft {α : Type} {k : RecordKind α} {arena : Embedding} {offset dim : Nat}
    {l : List α} (h : offset + k.count l ≤ arena.length) :
    (∀ a ∈ k.graft arena offset l, Fits dim (k.embedding a)) ↔
      ∀ a ∈ l, Fits dim (k.embedding a) := by
  have hmap := RecordKind.map_length_graft h
  have hall (l' : List α) : (∀ a ∈ l', Fits dim (k.embedding a)) ↔
      ∀ n ∈ l'.map fun a => (k.embedding a).length, n = 0 ∨ n = dim := by
    simp [fits_iff_length]
  rw [hall, hall, hmap]

theorem checks_withArena {arena : Embedding} (hshort : v.ShortStrings)
    (h : v.arena.length ≤ arena.length) :
    ((∃ index, indexMemories (v.withArena arena).embeddingDim 0 (v.withArena arena).memories ∅ =
        .ok index) ∧
      checkCache (v.withArena arena).embeddingDim (v.withArena arena).cacheEntries = .ok ()) ↔
      v.Loadable := by
  rw [length_arena] at h
  have hm : (∀ r ∈ (v.withArena arena).memories, Fits v.embeddingDim r.embedding) ↔
      ∀ r ∈ v.memories, Fits v.embeddingDim r.embedding :=
    fits_graft (k := memoryKind) (by omega)
  have hc : (∀ c ∈ (v.withArena arena).cacheEntries, Fits v.embeddingDim c.embedding) ↔
      ∀ c ∈ v.cacheEntries, Fits v.embeddingDim c.embedding :=
    fits_graft (k := cacheKind) h
  have hids : (v.withArena arena).memories.map (·.memoryId) = v.memories.map (·.memoryId) :=
    RecordKind.map_graft _ fun _ _ => rfl
  rw [indexMemories_isOk, checkCache_isOk, hids]
  show ((∀ r ∈ (v.withArena arena).memories, Fits v.embeddingDim r.embedding) ∧ _ ∧ _) ∧
    (∀ c ∈ (v.withArena arena).cacheEntries, Fits v.embeddingDim c.embedding) ↔ _
  rw [hm, hc]
  constructor
  · rintro ⟨⟨hm, hids, -⟩, hc⟩
    exact ⟨hshort, hm, hids, hc⟩
  · intro h
    exact ⟨⟨h.memories, h.distinct, by simp⟩, h.cacheEntries⟩

/-- The records of one snapshot are loaded with the vectors of another. -/
theorem load_mixed (hv : v.Sized) {d : SnapshotDir} (hr : d .records = some v.recordsFile)
    (hw : d .vectors = some w.vectorsFile) {directory : Bytes} (hdir : directory ≠ [])
    (t : Store) :
    let r := t.loadFromDirectory directory d
    (r.1.ok ↔ v.Loadable ∧ v.arena.length ≤ w.arena.length) ∧
    (r.1.ok → r.2.saved = v.withArena w.arena) := by
  have hread := readSaved_written hv w.arena
  rw [← vectorsFile_eq] at hread
  unfold Store.loadFromDirectory
  rw [if_neg (by simpa using hdir), hr, hw]
  dsimp only
  unfold Store.loadFiles
  by_cases hlong : v.ShortStrings ∧ v.arena.length ≤ w.arena.length
  · rw [if_pos hlong] at hread
    have hsaved : readSaved v.recordsFile w.vectorsFile = .ok (v.withArena w.arena) := by
      cases h : readSaved v.recordsFile w.vectorsFile with
      | error e => rw [h] at hread; cases hread
      | ok u => rw [h] at hread; exact congrArg _ (Option.some.inj hread)
    rw [and_iff_left hlong.2, ← checks_withArena hlong.1 hlong.2, hsaved]
    simp only [bind, Except.bind]
    cases hindex : indexMemories (v.withArena w.arena).embeddingDim 0
        (v.withArena w.arena).memories ∅ with
    | error e => simp [Store.failure]
    | ok index =>
      cases hcheck : checkCache (v.withArena w.arena).embeddingDim
          (v.withArena w.arena).cacheEntries with
      | error e => simp [Store.failure]
      | ok u => exact ⟨iff_of_true rfl ⟨⟨index, rfl⟩, rfl⟩, fun _ => rfl⟩
  · rw [if_neg hlong] at hread
    have hfail : ¬ (v.Loadable ∧ v.arena.length ≤ w.arena.length) := fun h => hlong ⟨h.1.short, h.2⟩
    cases h : readSaved v.recordsFile w.vectorsFile with
    | error e => simp [bind, Except.bind, Store.failure, hfail]
    | ok u => rw [h] at hread; cases hread

theorem withArena_self (v : Saved) : v.withArena v.arena = v :=
  (withArena_eq_self_iff le_rfl).mpr prefix_rfl

end Saved

/-! ## The directory after a crash -/

namespace SnapshotDir

/-- The directory has the files of a snapshot, or none; temporary files do not matter. -/
structure Holds (d : SnapshotDir) (prev : Option Saved) : Prop where
  records : d .records = prev.map Saved.recordsFile
  vectors : d .vectors = prev.map Saved.vectorsFile

theorem run_append (d : SnapshotDir) (ops ops' : List SnapshotOp) :
    d.run (ops ++ ops') = (d.run ops).run ops' := foldl_append

end SnapshotDir

def SnapshotOp.FillsTmp : SnapshotOp → Prop
  | .create f | .append f _ => f = .recordsTmp ∨ f = .vectorsTmp
  | _ => False

theorem SnapshotOp.apply_of_fillsTmp {op : SnapshotOp} (h : op.FillsTmp) (d : SnapshotDir) :
    op.apply d .records = d .records ∧ op.apply d .vectors = d .vectors := by
  cases op with
  | create f | append f data => rcases h with rfl | rfl <;> exact ⟨rfl, rfl⟩
  | remove f | rename f g => exact h.elim

theorem SnapshotDir.run_of_fillsTmp {ops : List SnapshotOp} (h : ∀ op ∈ ops, op.FillsTmp)
    (d : SnapshotDir) : d.run ops .records = d .records ∧ d.run ops .vectors = d .vectors := by
  induction ops generalizing d with
  | nil => exact ⟨rfl, rfl⟩
  | cons op ops ih =>
    rw [forall_mem_cons] at h
    obtain ⟨hr, hv⟩ := ih h.2 (op.apply d)
    obtain ⟨hr', hv'⟩ := op.apply_of_fillsTmp h.1 d
    exact ⟨hr.trans hr', hv.trans hv'⟩

namespace Saved

variable {v w : Saved}

theorem fillsTmp_fillOps (v : Saved) : ∀ op ∈ v.fillOps, op.FillsTmp := by
  intro op hop
  simp only [fillOps, mem_append, mem_cons, not_mem_nil, or_false, mem_flatMap] at hop
  rcases hop with (rfl | rfl | rfl | rfl) | ⟨x, -, rfl | rfl⟩ <;> simp [FillsTmp]

/-- The writes fill the two temporary files side by side. -/
theorem run_writes (l : List (Bytes × Bytes)) {d : SnapshotDir} {records vectors : Bytes}
    (hr : d .recordsTmp = some records) (hv : d .vectorsTmp = some vectors) :
    d.run (l.flatMap fun w => [.append .vectorsTmp w.1, .append .recordsTmp w.2]) .recordsTmp =
        some (records ++ l.flatMap Prod.snd) ∧
      d.run (l.flatMap fun w => [.append .vectorsTmp w.1, .append .recordsTmp w.2]) .vectorsTmp =
        some (vectors ++ l.flatMap Prod.fst) := by
  induction l generalizing d records vectors with
  | nil => simp [run, hr, hv]
  | cons x l ih =>
    rw [flatMap_cons, flatMap_cons, flatMap_cons, ← append_assoc, ← append_assoc]
    refine ih ?_ ?_
    · simp [apply, hr]
    · simp [apply, hv]

theorem run_fillOps (v : Saved) (d : SnapshotDir) :
    d.run v.fillOps .recordsTmp = some v.recordsFile ∧
      d.run v.fillOps .vectorsTmp = some v.vectorsFile := by
  exact run_writes v.writes rfl rfl

/-- What a load may find after a save into `d` that was cut off. -/
inductive Left (d : SnapshotDir) (v : Saved) (e : SnapshotDir) : Prop where
  | before (hr : e .records = d .records) (hv : e .vectors = d .vectors)
  | recordsGone (hr : e .records = none) (hv : e .vectors = d .vectors)
  | recordsNew (hr : e .records = some v.recordsFile) (hv : e .vectors = d .vectors)
  | vectorsGone (hr : e .records = some v.recordsFile) (hv : e .vectors = none)
  | after (hr : e .records = some v.recordsFile) (hv : e .vectors = some v.vectorsFile)

theorem saveOps_cases (d : SnapshotDir) {v : Saved} {done : List SnapshotOp}
    (h : done <+: v.saveOps) : Left d v (d.run done) := by
  obtain ⟨rest, hrest⟩ := h
  rcases append_eq_append_iff.mp hrest with ⟨unfilled, hfill, -⟩ | ⟨published, rfl, hpub⟩
  · obtain ⟨hr, hv⟩ := run_of_fillsTmp
      (fun op hop => v.fillsTmp_fillOps op (hfill ▸ mem_append_left _ hop)) d
    exact .before hr hv
  obtain ⟨hr, hv⟩ := run_of_fillsTmp v.fillsTmp_fillOps d
  obtain ⟨hrTmp, hvTmp⟩ := v.run_fillOps d
  rw [run_append]
  generalize d.run v.fillOps = e at hr hv hrTmp hvTmp
  have hmem : published ∈ publishOps.inits := (mem_inits _ _).mpr ⟨rest, hpub.symm⟩
  simp only [publishOps, inits, map_cons, map_nil, mem_cons, not_mem_nil, or_false] at hmem
  rcases hmem with rfl | rfl | rfl | rfl | rfl
  · exact .before hr hv
  · exact .recordsGone (by simp [run, apply]) (by simp [run, apply, hv])
  · exact .recordsNew (by simp [run, apply, hrTmp]) (by simp [run, apply, hrTmp, hv])
  · exact .vectorsGone (by simp [run, apply, hrTmp]) (by simp [run, apply])
  · exact .after (by simp [run, apply, hrTmp, hvTmp]) (by simp [run, apply, hrTmp, hvTmp])

theorem run_recordsNew (v : Saved) (d : SnapshotDir) :
    ∃ done, done <+: v.saveOps ∧ d.run done .records = some v.recordsFile ∧
      d.run done .vectors = d .vectors := by
  obtain ⟨-, hv⟩ := run_of_fillsTmp v.fillsTmp_fillOps d
  obtain ⟨hrTmp, -⟩ := v.run_fillOps d
  refine ⟨v.fillOps ++ [.remove .records, .rename .recordsTmp .records],
    ⟨[.remove .vectors, .rename .vectorsTmp .vectors], ?_⟩, ?_⟩
  · rw [append_assoc]
    rfl
  · rw [run_append]
    generalize d.run v.fillOps = e at hv hrTmp
    simp [run, apply, hrTmp, hv]

/-- The new records beside the old vectors are not loaded, or give the new snapshot or the old
one. -/
def FitsBeside (v : Saved) (old : Saved) : Prop :=
  ¬ v.Loadable ∨ old.arena.length < v.arena.length ∨ v.arena <+: old.arena ∨
    v.recordsFile = old.recordsFile

/-- What the new records get from the old vectors. -/
theorem withArena_eq_old_iff {old : Saved} (hv : v.Sized) (hold : old.Sized) (hload : v.Loadable)
    (hle : v.arena.length ≤ old.arena.length) :
    v.withArena old.arena = old ↔ v.recordsFile = old.recordsFile := by
  constructor
  · intro heq
    rw [← recordsFile_withArena hle, heq]
  intro hfile
  have hnew := readSaved_written hv old.arena
  have hown := readSaved_written hold old.arena
  rw [hfile, if_pos ⟨hload.short, hle⟩] at hnew
  rw [hnew] at hown
  split at hown
  · rw [withArena_self] at hown
    exact Option.some.inj hown
  · cases hown

end Saved

/-! ## Atomic saves -/

section

variable {d : SnapshotDir} {directory : Bytes} {t : Store}

/-- A load after a save that was cut off gives what was saved before, if anything, or what was to be
saved. -/
def Store.SavesAtomically (s : Store) (prev : Option Saved) : Prop :=
  ∀ (d : SnapshotDir) (done : List SnapshotOp) (t : Store) (directory : Bytes),
    d.Holds prev → done <+: s.saved.saveOps →
    (t.loadFromDirectory directory (d.run done)).1.ok = true →
    (t.loadFromDirectory directory (d.run done)).2.saved = prev.getD t.saved ∨
      (t.loadFromDirectory directory (d.run done)).2.saved = s.saved

/-- A snapshot is loaded as it was saved. -/
theorem Saved.load_own {v : Saved} (hv : v.Sized) (hr : d .records = some v.recordsFile)
    (hw : d .vectors = some v.vectorsFile) (hdir : directory ≠ [])
    (hok : (t.loadFromDirectory directory d).1.ok) :
    (t.loadFromDirectory directory d).2.saved = v := by
  rw [(load_mixed hv hr hw hdir t).2 hok, withArena_self]

/-- Without files the store stays, and one file alone is not loaded. -/
theorem Store.load_missing (h : d .records = none ∨ d .vectors = none)
    (hok : (t.loadFromDirectory directory d).1.ok) :
    d .records = none ∧ d .vectors = none ∧ (t.loadFromDirectory directory d).2 = t := by
  revert hok
  unfold loadFromDirectory
  split
  · exact nofun
  split
  next hr hw =>
    exact fun _ => ⟨hr, hw, rfl⟩
  next hr hw =>
    rw [hr, hw] at h
    rcases h with h | h <;> cases h
  · exact nofun

def SnapshotDir.ofSaved (prev : Option Saved) : SnapshotDir
  | .records => prev.map Saved.recordsFile
  | .vectors => prev.map Saved.vectorsFile
  | _ => none

/-- A save is atomic exactly when its records beside the old vectors are not loaded or give a whole
snapshot. -/
theorem snapshot_atomic_iff (s : Store) (prev : Option Saved) (hs : s.saved.Sized)
    (hprev : ∀ old ∈ prev, old.Sized) :
    s.SavesAtomically prev ↔ ∀ old ∈ prev, s.saved.FitsBeside old := by
  constructor
  · rintro h old rfl
    unfold Saved.FitsBeside
    by_contra hno
    push Not at hno
    obtain ⟨hload, hle, hpre, hfile⟩ := hno
    obtain ⟨done, hdone, hr, hv⟩ := s.saved.run_recordsNew (.ofSaved (some old))
    have hdir : [0#8] ≠ ([] : Bytes) := nofun
    obtain ⟨hok, hsaved⟩ := Saved.load_mixed hs hr hv hdir {}
    replace hok := hok.mpr ⟨hload, hle⟩
    have hcases := h _ done {} _ ⟨rfl, rfl⟩ hdone hok
    rw [hsaved hok, Saved.withArena_eq_self_iff hle] at hcases
    rcases hcases with hold | hnew
    · exact hfile ((Saved.withArena_eq_old_iff hs (hprev old rfl) hload hle).mp hold)
    · exact hpre hnew
  · intro h d done t directory hd hdone hok
    have hdir : directory ≠ [] := by
      rintro rfl
      cases hok
    have hleft := Saved.saveOps_cases d hdone
    generalize d.run done = e at hleft hok ⊢
    -- A file that is missing is missed, unless the directory was empty before.
    have hmissing (hm : e .records = none ∨ e .vectors = none) (hv : e .vectors = d .vectors) :
        (t.loadFromDirectory directory e).2.saved = prev.getD t.saved := by
      obtain ⟨-, hnone, hsame⟩ := Store.load_missing hm hok
      rw [hv, hd.vectors, Option.map_eq_none_iff] at hnone
      rw [hsame, hnone, Option.getD_none]
    cases hleft with
    | before hr hv =>
      rw [hd.records] at hr
      have hvec := hv
      rw [hd.vectors] at hvec
      cases prev with
      | none => exact .inl (hmissing (.inl hr) hv)
      | some old => exact .inl (Saved.load_own (hprev old rfl) hr hvec hdir hok)
    | recordsGone hr hv => exact .inl (hmissing (.inl hr) hv)
    | recordsNew hr hv =>
      have hvec := hv
      rw [hd.vectors] at hvec
      cases prev with
      | none => exact .inl (hmissing (.inr hvec) hv)
      | some old =>
        obtain ⟨hiff, hsaved⟩ := Saved.load_mixed hs hr hvec hdir t
        obtain ⟨hload, hle⟩ := hiff.mp hok
        rw [hsaved hok]
        rcases h old rfl with hno | hshort | hpre | hfile
        · exact absurd hload hno
        · omega
        · exact .inr ((Saved.withArena_eq_self_iff hle).mpr hpre)
        · exact .inl ((Saved.withArena_eq_old_iff hs (hprev old rfl) hload hle).mpr hfile)
    | vectorsGone hr hv =>
      obtain ⟨hnone, -, -⟩ := Store.load_missing (.inr hv) hok
      rw [hr] at hnone
      cases hnone
    | after hr hv => exact .inr (Saved.load_own hs hr hv hdir hok)

def oneMemory (id : String) (e : Embedding) : Store :=
  (({} : Store).putMemory (taggedMemory id e) 5 5).2

def twoMemories : Store := ((oneMemory "m" [one]).putMemory (taggedMemory "n" [one]) 5 5).2

theorem sized_memories : ∀ s ∈ [oneMemory "m" [one], twoMemories], s.saved.Sized := by
  intro s hs
  rcases List.mem_pair.mp hs with rfl | rfl <;> constructor <;> decide +kernel

/-- The second memory makes the vectors longer than those of the snapshot before. -/
theorem second_save_atomic : twoMemories.SavesAtomically (some (oneMemory "m" [one]).saved) := by
  refine (snapshot_atomic_iff _ _ (sized_memories _ (by simp)) ?_).mpr ?_
  · rintro _ ⟨⟩
    exact sized_memories _ (by simp)
  · rintro _ ⟨⟩
    exact .inr (.inl (by decide +kernel))

/-- The save of `n` over a snapshot of `m` is cut off when the records are in place. The load
succeeds, and `n` has the embedding of `m`. -/
theorem memory_with_foreign_embedding : let old := (oneMemory "m" [one]).saved
    let s := oneMemory "n" [0xbf800000#32]
    let d := (ofSaved (some old)).run (s.saved.saveOps.take 8)
    let loaded := ({} : Store).loadFromDirectory (ascii "d") d
    loaded.1.ok = true ∧
      loaded.2.memories.map (fun r => (r.memoryId, r.embedding)) = [(ascii "n", [one])] ∧
      loaded.2.saved ≠ old ∧ loaded.2.saved ≠ s.saved := by
  decide +kernel

end

end Zepto.Ai
