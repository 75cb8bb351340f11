import Zepto.Ai.AnnUnmoved

/-!
# Rebuilds of the index

A rebuild copies the memories under the lock, builds an index of the copy without it, and installs
the index under the lock unless the generation has changed. Any number of rebuilds overlap with the
operations of the store; the worker has one at a time. Without operations that change the pairs of
the memories and do not raise the generation, an index that is not dirty is one of the memories
(`ann_index_consistent`).
-/

namespace Zepto.Ai

open List Zepto.Lib

structure AnnBuildEntry where
  partitionKey : Bytes
  rowId : Nat
  embedding : Embedding

structure AnnBuildSnapshot where
  kind : AnnIndexKind
  generation : Nat
  entries : List AnnBuildEntry

def buildEntry (ri : MemoryRecord × Nat) : Option AnnBuildEntry :=
  if ri.1.embedding.isEmpty then none else some ⟨ri.1.annKey, ri.2, ri.1.embedding⟩

/-- `ann_build_snapshot_locked_`. -/
def Store.annBuildSnapshot (s : Store) : Option AnnBuildSnapshot :=
  if s.ann.config.mode = .off then none
  else if !s.ann.dirty && s.ann.index.isSome then none
  else
    some
      { kind := s.ann.kind
        generation := s.ann.generation
        entries := s.memories.zipIdx.filterMap buildEntry }

/-- One round of `build_and_swap_ann_index_`, which ignores what `add` reports. -/
def addEntry (idx : AnnIndex) (e : AnnBuildEntry) : AnnIndex :=
  (idx.add e.partitionKey e.rowId e.embedding).2

/-- The part of `build_and_swap_ann_index_` that needs no lock. -/
def AnnBuildSnapshot.build (b : AnnBuildSnapshot) : Option AnnIndex :=
  (makeAnnIndex b.kind).map fun idx => b.entries.foldl addEntry idx

structure Rebuild where
  worker : Bool
  snapshot : AnnBuildSnapshot
  built : Option AnnIndex := none

/-- Where `ann_rebuild_worker_loop_` is: waiting, in a rebuild, or about to take the lock at its
end. -/
inductive WorkerPhase where
  | waiting
  | building
  | ending
  deriving DecidableEq

structure AnnSystem where
  store : Store := {}
  rebuilds : List Rebuild := []
  worker : WorkerPhase := .waiting

inductive AnnEvent where
  | operation (e : StoreEvent)
  | rebuildAnnIndex
  | workerSnapshot
  | build (i : Nat)
  | swap (i : Nat)
  | workerDone

def noIndexError (kind : AnnIndexKind) : String :=
  if kind = .hnsw then "HNSW ANN backend is not enabled in this build"
  else "failed to create ANN index"

namespace AnnSystem

def withAnn (y : AnnSystem) (ann : AnnState) : AnnSystem :=
  { y with store := { y.store with ann := ann } }

def finish (y : AnnSystem) (i : Nat) (j : Rebuild) : AnnSystem :=
  { y with
    rebuilds := y.rebuilds.eraseIdx i
    worker := if j.worker then .ending else y.worker }

def rebuildAnnIndex (y : AnnSystem) : StoreAnswer × AnnSystem :=
  if !y.store.ann.dirty && y.store.ann.index.isSome then (.result { ok := true }, y)
  else
    match y.store.annBuildSnapshot with
    | none => (.result { ok := true }, y)
    | some b => (.done, { y with rebuilds := y.rebuilds ++ [{ worker := false, snapshot := b }] })

def workerCopy (y : AnnSystem) : AnnSystem :=
  match y.store.annBuildSnapshot with
  | none => y
  | some b =>
    { y.withAnn { y.store.ann with running := true, runningGeneration := b.generation } with
      rebuilds := y.rebuilds ++ [{ worker := true, snapshot := b }]
      worker := .building }

def workerSnapshot (y : AnnSystem) : AnnSystem :=
  if y.worker = .waiting && y.store.ann.requested then
    (y.withAnn { y.store.ann with requested := false, requestedGeneration := 0 }).workerCopy
  else y

def build (y : AnnSystem) (i : Nat) : StoreAnswer × AnnSystem :=
  match y.rebuilds[i]? with
  | none => (.done, y)
  | some j =>
    if j.built.isSome then (.done, y)
    else
      match j.snapshot.build with
      | none => (.result (Store.failure (noIndexError j.snapshot.kind)), y.finish i j)
      | some idx => (.done, { y with rebuilds := y.rebuilds.set i { j with built := some idx } })

/-- The part of `build_and_swap_ann_index_` under the lock. -/
def swap (y : AnnSystem) (i : Nat) : StoreAnswer × AnnSystem :=
  match y.rebuilds[i]? with
  | none => (.done, y)
  | some j =>
    match j.built with
    | none => (.done, y)
    | some idx =>
      if j.snapshot.generation ≠ y.store.ann.generation || j.snapshot.kind ≠ y.store.ann.kind then
        (.result (Store.failure "ANN index rebuild was superseded by a newer mutation"),
          y.finish i j)
      else
        (.result { ok := true },
          (y.withAnn { y.store.ann with index := some idx, dirty := false }).finish i j)

def workerDone (y : AnnSystem) : AnnSystem :=
  if y.worker = .ending then
    { y.withAnn { y.store.ann with running := false, runningGeneration := 0 } with
      worker := .waiting }
  else y

end AnnSystem

def annMachine : Machine AnnSystem AnnEvent StoreAnswer where
  step y
    | .operation e =>
      let a := storeMachine.step y.store e
      (a.1, { y with store := a.2 })
    | .rebuildAnnIndex => y.rebuildAnnIndex
    | .workerSnapshot => (.done, y.workerSnapshot)
    | .build i => y.build i
    | .swap i => y.swap i
    | .workerDone => (.done, y.workerDone)

/-! ## What a snapshot builds -/

theorem filterMap_buildEntry_append (l : List MemoryRecord) (r : MemoryRecord) :
    (l ++ [r]).zipIdx.filterMap buildEntry =
      l.zipIdx.filterMap buildEntry ++ (buildEntry (r, l.length)).toList := by
  rw [zipIdx_append, filterMap_append, zero_add, zipIdx_singleton, filterMap_cons]
  cases buildEntry (r, l.length) <;> rfl

theorem mirrors_entries {dim : Nat} {memories : List MemoryRecord}
    (h : ∀ r ∈ memories, Fits dim r.embedding) :
    ((memories.zipIdx.filterMap buildEntry).foldl addEntry {}).Mirrors dim memories := by
  induction memories using reverseRecOn with
  | nil => exact ⟨AnnIndex.valid_empty, .inl rfl, fun key row =>
      iff_of_false AnnIndex.not_active_empty (not_holds_of_le (Nat.zero_le _))⟩
  | append_singleton l r ih =>
    rw [filterMap_buildEntry_append, foldl_append]
    have hmirrors := (ih fun r hr => h r (mem_append_left _ hr)).append
      (h r (mem_append_right _ (mem_singleton_self r)))
    unfold buildEntry
    split_ifs with he
    · rw [if_pos he] at hmirrors
      exact hmirrors
    · rw [if_neg he] at hmirrors
      exact hmirrors

/-- A snapshot of the current generation builds an index of the memories. -/
structure Rebuild.Sound (s : Store) (j : Rebuild) : Prop where
  generation_le : j.snapshot.generation ≤ s.ann.generation
  built_eq : ∀ idx, j.built = some idx → j.snapshot.build = some idx
  current : j.snapshot.generation = s.ann.generation →
    s.ann.config.mode ≠ .off ∧
      ∀ idx, j.snapshot.build = some idx → idx.Mirrors s.embeddingDim s.memories

namespace Rebuild.Sound

variable {s t : Store} {j : Rebuild}

theorem of_snapshot {b : AnnBuildSnapshot} (h : s.AnnSound) (hb : s.annBuildSnapshot = some b)
    (worker : Bool) : Sound s { worker := worker, snapshot := b } := by
  unfold Store.annBuildSnapshot at hb
  split at hb
  · cases hb
  rename_i hmode
  split at hb
  · cases hb
  obtain rfl := Option.some.inj hb
  refine ⟨le_rfl, nofun, fun _ => ⟨hmode, fun idx hidx => ?_⟩⟩
  obtain ⟨idx0, hmake, rfl⟩ := Option.map_eq_some_iff.mp hidx
  unfold makeAnnIndex at hmake
  split at hmake
  · cases hmake
  · obtain rfl := Option.some.inj hmake
    exact mirrors_entries h.fits

theorem congr (h : j.Sound s) (hg : t.ann.generation = s.ann.generation)
    (hc : t.ann.config = s.ann.config) (hd : t.embeddingDim = s.embeddingDim)
    (hm : t.memories = s.memories) : j.Sound t :=
  ⟨hg ▸ h.generation_le, h.built_eq, by rw [hg, hc, hd, hm]; exact h.current⟩

/-- A step of the store that raises the generation, or leaves the pairs. -/
theorem moves (h : j.Sound s) (hmoves : s.Moves t)
    (hkept : j.snapshot.generation = s.ann.generation → s.Kept t) : j.Sound t := by
  refine ⟨h.generation_le.trans hmoves.generation_le, h.built_eq, fun hcur => ?_⟩
  have hle := h.generation_le
  have hle' := hmoves.generation_le
  have hs : j.snapshot.generation = s.ann.generation := by omega
  have ht : t.ann.generation = s.ann.generation := by omega
  obtain ⟨hconfig, hdim⟩ := hmoves.same ht
  obtain ⟨hmode, hbuild⟩ := h.current hs
  refine ⟨hconfig ▸ hmode, fun idx hidx => ?_⟩
  have hmirrors : idx.Mirrors t.embeddingDim s.memories := by
    rcases hdim with hzero | hsame
    · exact (hzero ▸ hbuild idx hidx).withDimension
    · exact hsame ▸ hbuild idx hidx
  rcases hkept hs with hraised | hholds
  · omega
  · exact hmirrors.congr hholds

end Rebuild.Sound

/-! ## Runs -/

namespace AnnSystem

structure Sound (y : AnnSystem) : Prop where
  store : y.store.AnnSound
  rebuilds : ∀ j ∈ y.rebuilds, j.Sound y.store

variable {y : AnnSystem}

def Quiet (y : AnnSystem) : Prop :=
  ∀ j ∈ y.rebuilds, j.snapshot.generation ≠ y.store.ann.generation

instance (y : AnnSystem) : Decidable y.Quiet := inferInstanceAs (Decidable (∀ _ ∈ _, _))

/-- An operation meets no rebuild of its generation, raises the generation, or leaves the pairs. -/
def Undisturbed (y : AnnSystem) : AnnEvent → Prop
  | .operation e => y.Quiet ∨ y.store.Unmoved e
  | _ => True

section

variable (h : y.Sound)

include h

theorem Sound.operation (e : StoreEvent) (he : y.Quiet ∨ y.store.Unmoved e) :
    Sound { y with store := (storeMachine.step y.store e).2 } := by
  refine ⟨h.store.step e, fun j hj => ?_⟩
  refine (h.rebuilds j hj).moves (Store.moves_step h.store e) fun hcur => ?_
  rcases he with hquiet | hunmoved
  · exact absurd hcur (hquiet j hj)
  · exact Store.kept_of_unmoved h.store e hunmoved

theorem Sound.withAnn (a : AnnState) (hg : a.generation = y.store.ann.generation)
    (hc : a.config = y.store.ann.config) (hm : a.Mirrors y.store.embeddingDim y.store.memories) :
    (y.withAnn a).Sound :=
  ⟨⟨h.store.toRows.congr rfl rfl rfl, hm⟩, fun j hj => (h.rebuilds j hj).congr hg hc rfl rfl⟩

theorem Sound.withWorker (phase : WorkerPhase) :
    Sound { y with worker := phase } := ⟨h.store, h.rebuilds⟩

theorem Sound.add {j : Rebuild} (hj : j.Sound y.store) :
    Sound { y with rebuilds := y.rebuilds ++ [j] } := by
  refine ⟨h.store, fun k hk => ?_⟩
  rcases mem_append.mp hk with hk | hk
  · exact h.rebuilds k hk
  · exact mem_singleton.mp hk ▸ hj

theorem Sound.finish (i : Nat) (j : Rebuild) : (y.finish i j).Sound :=
  ⟨h.store, fun k hk => h.rebuilds k (mem_of_mem_eraseIdx hk)⟩

theorem Sound.rebuildAnnIndex : y.rebuildAnnIndex.2.Sound := by
  unfold AnnSystem.rebuildAnnIndex
  split
  · exact h
  split
  · exact h
  next b hb =>
    exact h.add (.of_snapshot h.store hb false)

theorem Sound.workerCopy : y.workerCopy.Sound := by
  unfold AnnSystem.workerCopy
  split
  · exact h
  rename_i b hb
  have hadded := h.add (.of_snapshot h.store hb true)
  exact (hadded.withAnn { y.store.ann with running := true, runningGeneration := b.generation }
    rfl rfl h.store.mirrors).withWorker .building

theorem Sound.workerSnapshot : y.workerSnapshot.Sound := by
  unfold AnnSystem.workerSnapshot
  split
  · exact (h.withAnn { y.store.ann with requested := false, requestedGeneration := 0 } rfl rfl
      h.store.mirrors).workerCopy
  · exact h

theorem Sound.build (i : Nat) : (y.build i).2.Sound := by
  unfold AnnSystem.build
  split
  · exact h
  rename_i j hj
  split
  · exact h
  split
  · exact h.finish i j
  rename_i idx hidx
  have hsound := h.rebuilds j (mem_of_getElem? hj)
  refine ⟨h.store, fun k hk => ?_⟩
  rcases mem_or_eq_of_mem_set hk with hk | rfl
  · exact h.rebuilds k hk
  · exact ⟨hsound.generation_le, fun idx' h' => Option.some.inj h' ▸ hidx, hsound.current⟩

theorem Sound.swap (i : Nat) : (y.swap i).2.Sound := by
  unfold AnnSystem.swap
  split
  · exact h
  rename_i j hj
  split
  · exact h
  rename_i idx hidx
  split
  · exact h.finish i j
  rename_i hc
  have hgen : j.snapshot.generation = y.store.ann.generation := by
    by_contra hne
    exact hc (by simp [hne])
  have hsound := h.rebuilds j (mem_of_getElem? hj)
  obtain ⟨hmode, hbuild⟩ := hsound.current hgen
  refine (h.withAnn { y.store.ann with index := some idx, dirty := false } rfl rfl
    fun _ => ?_).finish i j
  exact ⟨hmode, idx, rfl, hbuild idx (hsound.built_eq idx hidx)⟩

theorem Sound.workerDone : y.workerDone.Sound := by
  unfold AnnSystem.workerDone
  split
  · exact (h.withAnn { y.store.ann with running := false, runningGeneration := 0 } rfl rfl
      h.store.mirrors).withWorker .waiting
  · exact h

theorem Sound.step (e : AnnEvent) (he : y.Undisturbed e) : (annMachine.step y e).2.Sound := by
  cases e with
  | operation e => exact h.operation e he
  | rebuildAnnIndex => exact h.rebuildAnnIndex
  | workerSnapshot => exact h.workerSnapshot
  | build i => exact h.build i
  | swap i => exact h.swap i
  | workerDone => exact h.workerDone

end

theorem Sound.run {events : List AnnEvent} (h : annMachine.Admits Undisturbed {} events) :
    (annMachine.run {} events).Sound :=
  annMachine.invariant_admits (fun _ e h he => h.step e he) ⟨Store.annSound_empty, nofun⟩ h

/-- The index holds the pairs of the memories, in the partitions of their tenants and namespaces. -/
def Consistent (y : AnnSystem) : Prop :=
  ∃ idx, y.store.ann.index = some idx ∧
    ∀ key row, idx.Active key row ↔ Holds y.store.memories key row

end AnnSystem

/-- If no operation changes the pairs under a rebuild of the same generation, an index that is not
dirty holds the pairs of the memories. -/
theorem ann_index_consistent (events : List AnnEvent)
    (hevents : annMachine.Admits AnnSystem.Undisturbed {} events)
    (hclean : (annMachine.run {} events).store.ann.dirty = false) :
    (annMachine.run {} events).Consistent := by
  obtain ⟨-, idx, hidx, hmirrors⟩ := (AnnSystem.Sound.run hevents).store.mirrors hclean
  exact ⟨idx, hidx, hmirrors.active_iff⟩

theorem rebuilt_index_consistent :
    (annMachine.run {} [.operation (.setAnnConfig { mode := .sparseProjection }),
      .operation (.putMemory (taggedMemory "m" [one]) 5 5), .rebuildAnnIndex, .build 0, .swap 0,
      .operation (.putMemory (taggedMemory "n" [one]) 5 5)]).Consistent :=
  ann_index_consistent _ ⟨.inl (by decide), .inl (by decide), trivial, trivial, trivial,
    .inl (by decide +kernel), trivial⟩ (by decide +kernel)

/-- A memory is removed while the index is dirty and a rebuild is under way, which does not raise
the generation. The rebuild installs an index that still has the row. -/
theorem removed_memory_stays_indexed :
    let y := annMachine.run {}
      [.operation (.setAnnConfig { mode := .sparseProjection }),
       .operation (.putMemory (taggedMemory "m" [one]) 5 5),
       .rebuildAnnIndex,
       .operation (.removeMemory (ascii "m") []),
       .build 0, .swap 0]
    y.store.ann.dirty = false ∧ ¬ y.Consistent := by
  intro y
  have hstate : y.store.ann.dirty = false ∧ y.store.memories.length = 0 ∧
      (y.store.ann.index.bind fun idx =>
        (idx.partitions.lookup (taggedMemory "m" [one]).annKey).map fun p => (p.rowIds, p.active)) =
        some ([0], [true]) := by
    decide +kernel
  obtain ⟨hclean, hmemories, hindex⟩ := hstate
  refine ⟨hclean, ?_⟩
  rintro ⟨idx, hidx, hiff⟩
  rw [hidx, Option.bind_some, Option.map_eq_some_iff] at hindex
  obtain ⟨p, hp, hentry⟩ := hindex
  rw [Prod.mk.injEq] at hentry
  have hactive : idx.Active (taggedMemory "m" [one]).annKey 0 :=
    ⟨p, hp, 0, by rw [hentry.1]; rfl, by rw [hentry.2]; rfl⟩
  exact not_holds_of_le hmemories.le ((hiff _ _).mp hactive)

end Zepto.Ai
