import Zepto.Ai.StoreRuns

/-!
# Unit embeddings and their memories

The store keeps the unit embedding of each memory in a flat array, and a flag whether there is one.
`Units.of` is what the two arrays should hold for a list of embeddings; each operation takes the
arrays of one list to those of another. `units_aligned` follows for every run in which no cache
entry fixes the dimension of a store that has memories: only `put_memory` and
`restore_evicted_entries` make room for these.
-/

namespace Zepto.Ai

open List Zepto.Lib

/-- The row of an embedding: its unit vector, or zeros. -/
def unitRow (dim : Nat) (e : Embedding) : Embedding :=
  if (normalizeEmbedding e).isEmpty then replicate dim 0#32 else normalizeEmbedding e

def Fits (dim : Nat) (e : Embedding) : Prop := e = [] ∨ e.length = dim

variable {e : Embedding}

theorem length_unitRow {dim : Nat} (h : Fits dim e) : (unitRow dim e).length = dim := by
  unfold unitRow
  split
  · exact length_replicate
  rename_i hn
  rw [List.isEmpty_iff] at hn
  rw [length_normalizeEmbedding hn]
  rcases h with rfl | h
  · exact absurd normalizeEmbedding_nil hn
  · exact h

theorem unitRow_of_isEmpty {dim : Nat} (h : (normalizeEmbedding e).isEmpty) :
    unitRow dim e = replicate dim 0#32 := if_pos h

theorem unitRow_nil (dim : Nat) : unitRow dim [] = replicate dim 0#32 := rfl

theorem Fits.of_zero (h : Fits 0 e) : e = [] := by
  rcases h with h | h
  · exact h
  · exact eq_nil_of_length_eq_zero h

namespace Units

/-- What the arrays should hold. -/
def of (dim : Nat) (es : List Embedding) : Units :=
  { present := es.map fun e => !(normalizeEmbedding e).isEmpty, values := es.flatMap (unitRow dim) }

variable {dim : Nat} {es : List Embedding}

section

variable {e : Embedding} {memories : List MemoryRecord}

theorem of_eq (dim : Nat) (es : List Embedding) : of dim es =
    { present := es.map fun e => !(normalizeEmbedding e).isEmpty,
      values := (es.map (unitRow dim)).flatten } := rfl

theorem of_congr {es' : List Embedding} (h : es.map (unitRow dim) = es'.map (unitRow dim))
    (hp : (es.map fun e => !(normalizeEmbedding e).isEmpty) =
      es'.map fun e => !(normalizeEmbedding e).isEmpty) : of dim es = of dim es' := by
  rw [of_eq, of_eq, h, hp]

theorem length_values_of (h : ∀ e ∈ es, Fits dim e) : (of dim es).values.length = es.length * dim :=
  length_flatMap_rows fun e he => length_unitRow (h e he)

theorem sized_of (h : ∀ e ∈ es, Fits dim e) : (of dim es).sized es.length dim := by
  rw [sized, length_values_of h]
  simp [of]

theorem blank_eq (h : ∀ e ∈ es, e = []) : blank es.length dim = of dim es := by
  rw [eq_replicate_iff.mpr ⟨rfl, h⟩]
  simp [blank, of, unitRow_nil, flatMap_replicate]

theorem append_of (h : ∀ e ∈ es, Fits dim e) (he : Fits dim e) :
    (of dim es).append dim e = of dim (es ++ [e]) := by
  unfold append
  split
  next hd =>
    subst hd
    rw [he.of_zero]
    simp [of, unitRow_nil]
  have hrow : (unitRow dim e).length = dim := length_unitRow he
  simp only [of, map_append, map_singleton, flatMap_append, flatMap_singleton]
  by_cases hn : (normalizeEmbedding e).isEmpty
  · rw [unitRow_of_isEmpty hn, isEmpty_iff.mp hn, writeAt]
    simp
  · have hu : unitRow dim e = normalizeEmbedding e := if_neg hn
    rw [hu] at hrow ⊢
    rw [writeAt, take_left, drop_of_length_le (by simp [hrow]), append_nil]

theorem set_of {idx : Nat} (hlen : memories.length = es.length) (h : ∀ e ∈ es, Fits dim e)
    (he : Fits dim e) : (of dim es).set dim memories idx e = of dim (es.set idx e) := by
  unfold set
  rw [hlen]
  split
  next hc =>
    rw [Bool.or_eq_true, decide_eq_true_eq, decide_eq_true_eq] at hc
    rcases hc with hc | rfl
    · rw [set_eq_of_length_le hc]
    · have hnil := fun e he => (h e he).of_zero
      rw [he.of_zero, eq_replicate_iff.mpr ⟨rfl, hnil⟩, set_replicate_self]
  next hc =>
    rw [Bool.or_eq_true, decide_eq_true_eq, not_or, not_le] at hc
    rw [sized_of h, Bool.not_true, if_neg Bool.false_ne_true]
    have hrows := fun e he => length_unitRow (h e he)
    have hzero : (unitRow dim []).length = dim := length_unitRow (.inl rfl)
    have hset : ∀ x ∈ es.set idx [], (unitRow dim x).length = dim := fun x hx => by
      rcases mem_or_eq_of_mem_set hx with hx | rfl
      · exact hrows x hx
      · exact hzero
    have hclear : writeAt (es.flatMap (unitRow dim)) (idx * dim) (replicate dim 0#32) =
        (es.set idx []).flatMap (unitRow dim) := writeAt_flatMap hrows hc.1 hzero
    simp only [of, hclear, map_set]
    by_cases hn : (normalizeEmbedding e).isEmpty
    · rw [isEmpty_iff.mp hn, writeAt]
      simp only [length_nil, add_zero, nil_append, take_append_drop]
      rw [flatMap_def, flatMap_def, map_set, map_set, unitRow_of_isEmpty hn]
      rfl
    · have hu : unitRow dim e = normalizeEmbedding e := if_neg hn
      rw [← hu, writeAt_flatMap hset (by simpa using hc.1) (length_unitRow he), set_set]

theorem fill_of {done rest : List Embedding} {r : MemoryRecord}
    (hdone : ∀ e ∈ done, Fits dim e) (hr : Fits dim r.embedding) (hrest : ∀ e ∈ rest, e = []) :
    fill dim (of dim (done ++ [] :: rest)) (r, done.length) =
      of dim (done ++ r.embedding :: rest) := by
  have hlt : done.length < (done ++ [] :: rest).length := by simp
  have hset : (done ++ [] :: rest).set done.length r.embedding = done ++ r.embedding :: rest := by
    simp
  have hfits : ∀ e ∈ done ++ [] :: rest, (unitRow dim e).length = dim := by
    intro e he
    refine length_unitRow ?_
    rw [mem_append, mem_cons] at he
    rcases he with he | he | he
    · exact hdone e he
    · exact .inl he
    · exact .inl (hrest e he)
  unfold fill
  extract_lets unit
  split_ifs with hn
  · refine of_congr ?_ ?_
    · simp [unitRow_of_isEmpty hn, unitRow_nil]
    · have : (normalizeEmbedding r.embedding).isEmpty := hn
      simp [this]
  · have hu : unitRow dim r.embedding = unit := if_neg hn
    rw [← hset]
    simp only [of, mk.injEq]
    constructor
    · rw [map_set]
      simp [show (normalizeEmbedding r.embedding).isEmpty = false from by simpa using hn]
    · rw [← hu, writeAt_flatMap hfits hlt (length_unitRow hr)]

theorem rebuild_of (h : ∀ r ∈ memories, Fits dim r.embedding) :
    rebuild dim memories = of dim (memories.map (·.embedding)) := by
  unfold rebuild
  split
  next hd =>
    subst hd
    have hnil : ∀ e ∈ memories.map (·.embedding), e = [] := fun e he => by
      obtain ⟨r, hr, rfl⟩ := mem_map.mp he
      exact (h r hr).of_zero
    rw [← blank_eq hnil]
    simp [blank]
  · have aux : ∀ (l : List MemoryRecord) (done : List Embedding), (∀ e ∈ done, Fits dim e) →
        (∀ r ∈ l, Fits dim r.embedding) →
        (l.zipIdx done.length).foldl (fill dim) (of dim (done ++ replicate l.length [])) =
          of dim (done ++ l.map (·.embedding)) := by
      intro l
      induction l with
      | nil => exact fun _ _ _ => rfl
      | cons r l ih =>
        intro done hdone hl
        rw [forall_mem_cons] at hl
        rw [zipIdx_cons, foldl_cons, length_cons, replicate_succ,
          fill_of hdone hl.1 fun e he => (mem_replicate.mp he).2]
        have hdone' : ∀ e ∈ done ++ [r.embedding], Fits dim e := fun e he => by
          rw [mem_append, mem_singleton] at he
          rcases he with he | rfl
          · exact hdone e he
          · exact hl.1
        have hstep := ih (done ++ [r.embedding]) hdone' hl.2
        rw [length_append, append_assoc, append_assoc]
          at hstep
        exact hstep
    have hnil : ∀ e ∈ replicate memories.length ([] : Embedding), e = [] :=
      fun e he => (mem_replicate.mp he).2
    have hblank : blank memories.length dim = of dim (replicate memories.length []) := by
      rw [← blank_eq hnil, length_replicate]
    rw [hblank]
    exact aux memories [] nofun h

theorem removeRow_of {row : Nat} {left : List MemoryRecord} (h : ∀ e ∈ es, Fits dim e)
    (hrow : row < es.length) :
    (of dim es).removeRow dim es.length row left = of dim (swapRemove es row) := by
  have hrows := fun e he => length_unitRow (h e he)
  have hvalid : ((of dim es).present.length = es.length && (dim = 0 ||
      (of dim es).values.length = es.length * dim)) := by
    rw [length_values_of h]
    simp [of]
  rw [removeRow, if_pos hvalid]
  have hcut := swapRemove_flatMap hrows hrow
  simp only [of, mk.injEq, map_swapRemove, true_and]
  split
  next hd =>
    subst hd
    have hempty : ∀ l : List Embedding, (∀ e ∈ l, Fits 0 e) → l.flatMap (unitRow 0) = [] :=
      fun l hl => eq_nil_of_length_eq_zero (by
        rw [length_flatMap_rows fun e he => length_unitRow (hl e he), mul_zero])
    rw [hempty es h, hempty _ fun e he => h e (mem_of_mem_swapRemove he)]
  · split
    · exact hcut
    next hlast =>
      rw [not_not] at hlast
      -- The last row is written over itself.
      have hself : es.length - 1 < es.length := by omega
      rw [hlast, rowAt_flatMap hrows (getElem?_eq_getElem hself),
        writeAt_flatMap hrows hself (hrows _ (getElem_mem hself)),
        set_getElem_self] at hcut
      rw [hcut, hlast]

end

end Units

namespace Store

variable {s : Store}

structure Tracks (s : Store) : Prop where
  fits : ∀ r ∈ s.memories, Fits s.embeddingDim r.embedding
  units_eq : s.units = .of s.embeddingDim (s.memories.map (·.embedding))

def LeavesDimension (s : Store) : StoreEvent → Prop
  | .storeCache c _ _ => s.embeddingDim = 0 → s.memories = [] ∨ c.embedding = [] ∨
      c.embedding.any (fun x => !x.isFinite) = true
  | _ => True

theorem fits_of_validate {dim dim' : Nat} {e : Embedding}
    (h : validateEmbedding dim e = .ok dim') : Fits dim' e := by
  rcases validateEmbedding_ok h with ⟨rfl, -⟩ | ⟨-, hd, -⟩
  · exact .inl rfl
  · exact .inr hd.symm

namespace Tracks

section

variable {dim : Nat} {r : MemoryRecord} {index : AList (fun _ : Bytes => Nat)} {clock now : Int64}

theorem fits_map (h : s.Tracks) : ∀ e ∈ s.memories.map (·.embedding), Fits s.embeddingDim e := by
  intro e he
  obtain ⟨r, hr, rfl⟩ := mem_map.mp he
  exact h.fits r hr

theorem congr {t : Store} (h : s.Tracks) (hd : t.embeddingDim = s.embeddingDim)
    (hm : t.memories.map (·.embedding) = s.memories.map (·.embedding))
    (hu : t.units = s.units) : t.Tracks := by
  refine ⟨fun r hr => ?_, ?_⟩
  · have hmem : r.embedding ∈ s.memories.map (·.embedding) := hm ▸ mem_map_of_mem hr
    rw [hd]
    exact h.fits_map _ hmem
  · rw [hd, hm, hu]
    exact h.units_eq

theorem evicts : Evicts Tracks where
  row s row h := by
    unfold removeMemoryRow
    split
    next removed moved hrow _ =>
      refine ⟨fun r hr => h.fits r (mem_of_mem_swapRemove hr), ?_⟩
      have hlt : row < (s.memories.map (·.embedding)).length := by
        rw [length_map]
        exact (List.getElem?_eq_some_iff.mp hrow).1
      have hlen : s.memories.length = (s.memories.map (·.embedding)).length := by simp
      dsimp only
      rw [h.units_eq, hlen, Units.removeRow_of h.fits_map hlt, map_swapRemove]
    · exact h
  cache s l _ h := h.congr rfl rfl rfl
  counts s m c h := h.congr rfl rfl rfl

section

variable (h : s.Tracks)

include h

theorem adoptDimension {e : Embedding}
    (hdim : validateEmbedding s.embeddingDim e = .ok dim) : (s.adoptDimension dim).Tracks := by
  by_cases hsame : dim = s.embeddingDim
  · refine h.congr hsame rfl ?_
    unfold Store.adoptDimension
    rw [if_neg]
    rintro ⟨h0, hne, -⟩
    exact hne (hsame.trans h0)
  · -- The dimension was not fixed, so that no memory has an embedding.
    have hzero : s.embeddingDim = 0 := by
      rcases validateEmbedding_ok hdim with ⟨-, hd⟩ | ⟨-, hd, h0 | h0⟩
      · exact absurd hd hsame
      · exact h0
      · exact absurd (hd.trans h0.symm) hsame
    have hnil : ∀ r ∈ s.memories, r.embedding = [] := fun r hr => by
      have := h.fits r hr
      rw [hzero] at this
      exact this.of_zero
    refine ⟨fun r hr => .inl (hnil r hr), ?_⟩
    have hmap : ∀ e ∈ s.memories.map (·.embedding), e = [] := fun e he => by
      obtain ⟨r, hr, rfl⟩ := mem_map.mp he
      exact hnil r hr
    show (if _ then _ else s.units) = .of dim (s.memories.map (·.embedding))
    rw [← Units.blank_eq hmap, length_map]
    split
    · rfl
    rename_i hc
    have hempty : s.memories = [] := by
      by_contra hne
      exact hc ⟨hzero, fun h0 => hsame (h0.trans hzero.symm), hne⟩
    rw [h.units_eq, hempty]
    simp [Units.of, Units.blank]

theorem append {count : Nat} (hr : Fits s.embeddingDim r.embedding) : ({ s with
      memories := s.memories ++ [r]
      memoryIndex := index
      units := s.units.append s.embeddingDim r.embedding
      expiringMemoryCount := count } : Store).Tracks := by
  refine ⟨fun r' hr' => ?_, ?_⟩
  · rcases mem_append.mp hr' with hr' | hr'
    · exact h.fits r' hr'
    · rw [mem_singleton.mp hr']
      exact hr
  · show s.units.append _ _ = .of _ ((s.memories ++ [r]).map (·.embedding))
    rw [h.units_eq, Units.append_of h.fits_map hr, map_append, map_singleton]

theorem putMemory : (s.putMemory r clock now).2.Tracks := by
  have hprepared : ∀ dim, validateEmbedding s.embeddingDim r.embedding = .ok dim →
      (s.prepared r dim).Tracks := fun dim hdim =>
    (h.adoptDimension hdim).congr rfl rfl rfl
  refine putMemory_cases h hprepared fun dim placement placed hdim hp => ?_
  have ht := hprepared dim hdim
  have hfit : Fits (s.prepared r dim).embeddingDim
      (estimated (s.completeMemory r clock)).embedding := fits_of_validate hdim
  have hplaced : placed.Tracks := by
    obtain ⟨row, count, -, -, rfl⟩ | ⟨count, -, -, rfl⟩ := placeMemory_cases hp
    · refine ⟨fun r' hr' => ?_, ?_⟩
      · rcases mem_or_eq_of_mem_set hr' with hr' | rfl
        · exact ht.fits r' hr'
        · exact hfit
      · show (s.prepared r dim).units.set _ _ _ _ = .of _ (map _ (set _ _ _))
        rw [ht.units_eq, Units.set_of (by simp) ht.fits_map hfit, map_set]
    · exact ht.append hfit
  exact (evicts.evictOnWrite hplaced).congr rfl rfl rfl

theorem storeCache {c : CacheEntry}
    (hc : s.LeavesDimension (.storeCache c clock now)) : (s.storeCache c clock now).2.Tracks := by
  have hdim : ∀ dim next, validateEmbedding s.embeddingDim c.embedding = .ok dim →
      ({ s with embeddingDim := dim, nextCacheId := next } : Store).Tracks := by
    intro dim next hv
    by_cases hsame : dim = s.embeddingDim
    · exact h.congr hsame rfl rfl
    have hempty : s.memories = [] := by
      rcases validateEmbedding_ok hv with ⟨-, hd⟩ | ⟨hne, hd, h0 | h0⟩
      · exact absurd hd hsame
      · rcases hc h0 with hm | hm | hm
        · exact hm
        · exact absurd hm hne
        · rw [validateEmbedding, if_neg (by simpa using hne), if_pos hm] at hv
          cases hv
      · exact absurd (hd.trans h0.symm) hsame
    refine ⟨fun r hr => ?_, ?_⟩
    · rw [show ({ s with embeddingDim := dim, nextCacheId := next } : Store).memories = [] from
        hempty] at hr
      cases hr
    · show s.units = .of dim (s.memories.map (·.embedding))
      rw [h.units_eq, hempty]
      rfl
  refine storeCache_cases h hdim fun dim placed hv hplaced => ?_
  have hprepared : (s.preparedCache c dim).Tracks := hdim dim _ hv
  refine evicts.evictOnWrite ?_
  obtain ⟨i, count, -, rfl⟩ | ⟨count, -, rfl⟩ := placeCache_cases hplaced
  all_goals exact hprepared.congr rfl rfl rfl

theorem search {q : MemoryQuery} {rows : List Nat} : (s.search q now rows).Tracks :=
  search_frame fun _ _ _ hmap => h.congr rfl (hmap _ fun _ _ _ => rfl) rfl

theorem restore {evictions : List EvictionEvent} :
    (s.restoreEvictedEntries evictions).2.Tracks := by
  have hdone := restore_induction (P := fun acc => acc.store.Tracks) evictions ?_ ?_
    { store := s } h
  · exact hdone.congr rfl rfl rfl
  · intro e _ acc t hacc ht
    obtain ⟨-, dim, count, hdim, rfl⟩ := restoreMemory_eq_some ht
    exact (hacc.adoptDimension hdim).append (fits_of_validate hdim)
  · intro e _ _ acc t hacc ht
    obtain ⟨dim, count, hdim, rfl⟩ := restoreCache_eq_some ht
    exact (hacc.adoptDimension hdim).congr rfl rfl rfl

end

theorem fits_of_indexMemories {i : Nat} {l : List MemoryRecord} {m : AList (fun _ : Bytes => Nat)}
    (h : indexMemories dim i l m = .ok index) : ∀ r ∈ l, Fits dim r.embedding := by
  induction l generalizing i m with
  | nil => exact nofun
  | cons r l ih =>
    unfold indexMemories at h
    split at h
    · cases h
    rename_i hfit
    split at h
    · cases h
    rw [forall_mem_cons]
    refine ⟨?_, ih h⟩
    by_cases he : r.embedding = []
    · exact .inl he
    · exact .inr (by simpa [he] using hfit)

theorem load {directory : Bytes} {files : SnapshotDir} (h : s.Tracks) :
    (s.loadFromDirectory directory files).2.Tracks := by
  refine load_cases h fun _ _ v index _ _ _ hindex => ?_
  have hfits := fits_of_indexMemories hindex
  exact ⟨hfits, Units.rebuild_of hfits⟩

theorem step (h : s.Tracks) (e : StoreEvent) (he : s.LeavesDimension e) :
    (storeMachine.step s e).2.Tracks := by
  cases e with
  | putMemory r clock now => exact h.putMemory
  | removeMemory id tenant => exact evicts.removeMemory h
  | search q now rows => exact h.search
  | storeCache c clock now => exact h.storeCache he
  | removeCache t n p => exact removeCache_frame fun _ _ _ => h.congr rfl rfl rfl
  | lookupCache l clock => exact lookupCache_frame fun _ => h.congr rfl rfl rfl
  | setEvictionConfig config now => exact evicts.evictOnWrite (h.congr rfl rfl rfl)
  | setAnnConfig config | setIdConfig config => exact h.congr rfl rfl rfl
  | evictExpired nowArg clock => exact evicts.evictExpiredLocked _ h
  | restoreEvictedEntries evictions => exact h.restore
  | loadFromDirectory directory files => exact h.load
  | clear => exact ⟨nofun, rfl⟩

theorem run {events : List StoreEvent} (h : storeMachine.Admits LeavesDimension {} events) :
    (storeMachine.run {} events).Tracks :=
  storeMachine.invariant_admits (fun _ e h he => h.step e he) ⟨nofun, rfl⟩ h

end

end Tracks

/-! ## Slots and similarities -/

/-- The similarity computed from the embedding itself. -/
def ownSimilarity (e queryUnit : Embedding) : Float :=
  if queryUnit.isEmpty || (normalizeEmbedding e).isEmpty || queryUnit.length ≠ e.length then
    doubleOfInt 0
  else dot queryUnit (normalizeEmbedding e)

/-- One slot for each memory, which describes the memory's own embedding. -/
structure Aligned (s : Store) : Prop where
  length_present : s.units.present.length = s.memories.length
  length_values : s.units.values.length = s.memories.length * s.embeddingDim
  slot : ∀ i r, s.memories[i]? = some r →
    s.units.present[i]? = some (!(normalizeEmbedding r.embedding).isEmpty) ∧
    rowAt s.embeddingDim s.units.values i = unitRow s.embeddingDim r.embedding
  similarity : ∀ i r queryUnit, s.memories[i]? = some r →
    s.memorySimilarity i queryUnit = ownSimilarity r.embedding queryUnit

theorem Tracks.aligned (h : s.Tracks) : s.Aligned := by
  have hlen : s.units.values.length = s.memories.length * s.embeddingDim := by
    rw [h.units_eq, Units.length_values_of h.fits_map, length_map]
  have hslot : ∀ i r, s.memories[i]? = some r →
      s.units.present[i]? = some (!(normalizeEmbedding r.embedding).isEmpty) ∧
      rowAt s.embeddingDim s.units.values i = unitRow s.embeddingDim r.embedding := by
    intro i r hi
    have hei : (s.memories.map (·.embedding))[i]? = some r.embedding := by
      rw [getElem?_map, hi, Option.map_some]
    rw [h.units_eq]
    constructor
    · rw [Units.of, getElem?_map, hei, Option.map_some]
    · exact rowAt_flatMap (fun e he => length_unitRow (h.fits_map e he)) hei
  refine ⟨by rw [h.units_eq]; simp [Units.of], hlen, hslot, fun i r q hi => ?_⟩
  obtain ⟨hpresent, hrow⟩ := hslot i r hi
  unfold memorySimilarity ownSimilarity
  by_cases hn : (normalizeEmbedding r.embedding).isEmpty
  · rw [hpresent, hn]
    simp
  -- The embedding has a unit vector, so that it has the dimension of the store.
  have hdim : r.embedding.length = s.embeddingDim := by
    rcases h.fits r (mem_of_getElem? hi) with he | he
    · rw [he] at hn
      exact absurd rfl hn
    · exact he
  have hpos : s.embeddingDim ≠ 0 := fun h0 => by
    rw [h0] at hdim
    rw [eq_nil_of_length_eq_zero hdim] at hn
    exact hn rfl
  have hroom : ¬ s.units.values.length < (i + 1) * s.embeddingDim := by
    rw [hlen, not_lt]
    exact Nat.mul_le_mul_right _ (List.getElem?_eq_some_iff.mp hi).1
  have hunit : unitRow s.embeddingDim r.embedding = normalizeEmbedding r.embedding := if_neg hn
  rw [hpresent, hrow, hunit, hdim]
  simp [hpos, hroom]

end Store

/-- If no cache entry fixes the dimension of a store with memories, the unit embeddings are those of
the memories. -/
theorem units_aligned (events : List StoreEvent)
    (hevents : storeMachine.Admits Store.LeavesDimension {} events) :
    (storeMachine.run {} events).Aligned := (Store.Tracks.run hevents).aligned

/-- A memory of the tenant `t` with an embedding. -/
def taggedMemory (id : String) (e : Embedding) : MemoryRecord :=
  { memoryId := ascii id, tenantId := ascii "t", embedding := e }

def one : Single := 0x3f800000#32

theorem two_memories_aligned : (storeMachine.run {} [.putMemory (taggedMemory "m" []) 5 5,
      .putMemory (taggedMemory "n" [one]) 5 5]).Aligned :=
  units_aligned _ ⟨trivial, trivial, trivial⟩

/-- A cache entry fixes the dimension after a memory without an embedding was stored. The vectors of
later memories stand one slot too early: the second memory gets the similarity of the third. -/
theorem similarity_of_another_memory :
    let s := storeMachine.run {}
      [.putMemory (taggedMemory "m" []) 5 5,
       .storeCache { prompt := ascii "p", response := ascii "r", embedding := [one] } 5 5,
       .putMemory (taggedMemory "n" [one]) 5 5,
       .putMemory (taggedMemory "o" [0xbf800000#32]) 5 5]
    s.memories.map (·.embedding) = [[], [one], [0xbf800000#32]] ∧
      s.units.values.length ≠ s.memories.length * s.embeddingDim ∧
      s.memorySimilarity 1 [one] = doubleOfInt (-1) ∧
      Store.ownSimilarity [one] [one] = doubleOfInt 1 := by
  decide +kernel

end Zepto.Ai
