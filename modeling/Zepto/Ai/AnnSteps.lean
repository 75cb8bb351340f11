import Zepto.Ai.AnnMaintain

/-!
# Steps of the store and its index

`AnnSound` says that an index that is not dirty is one of the memories there are; every operation of
the store keeps it (`AnnSound.step`). `Kept` says that an operation raises the generation or leaves
the pairs of the memories as they are.
-/

namespace Zepto.Ai

open AnnState List Zepto.Lib

namespace Store

variable {s t : Store}

/-! ## What evictions leave -/

section

variable {now : Int64} {row most : Nat} {memories : List MemoryRecord} {old r : MemoryRecord}
  {dim : Nat} {e : Embedding} {placement : Placement} {placed : Store} {clock : Int64}

structure Rows (s : Store) : Prop where
  index : Indexes s.memoryIndex (s.memories.map (·.memoryId))
  fits : ∀ r ∈ s.memories, Fits s.embeddingDim r.embedding

/-- The index of embeddings, unless it is dirty, is one of the memories. -/
structure AnnSound (s : Store) : Prop extends Rows s where
  mirrors : s.ann.Mirrors s.embeddingDim s.memories

theorem Rows.congr (h : s.Rows) (hd : t.embeddingDim = s.embeddingDim)
    (hm : t.memories = s.memories) (hi : t.memoryIndex = s.memoryIndex) : t.Rows :=
  ⟨by rw [hm, hi]; exact h.index, by rw [hm, hd]; exact h.fits⟩

theorem AnnSound.congr (h : s.AnnSound) (hd : t.embeddingDim = s.embeddingDim)
    (hm : t.memories = s.memories) (hi : t.memoryIndex = s.memoryIndex) (ha : t.ann = s.ann) :
    t.AnnSound :=
  ⟨h.toRows.congr hd hm hi, by rw [hm, hd, ha]; exact h.mirrors⟩

theorem Rows.evicts : Evicts Rows where
  row s row h := by
    unfold removeMemoryRow
    split
    next removed moved hrow hlast =>
      refine ⟨?_, fun r hr => h.fits r (mem_of_mem_swapRemove hr)⟩
      have hid : (s.memories.map (·.memoryId))[row]? = some removed.memoryId := by
        rw [getElem?_map, hrow, Option.map_some]
      have hlastId : (s.memories.map (·.memoryId)).getLast? = some moved.memoryId := by
        rw [getLast?_map, hlast, Option.map_some]
      have hindex := h.index.swapRemove hid hlastId
      rw [length_map] at hindex
      rw [map_swapRemove]
      exact hindex
    · exact h
  cache s l _ h := h.congr rfl rfl rfl
  counts s m c h := h.congr rfl rfl rfl

theorem AnnSound.evicts : Evicts AnnSound where
  row s row h := by
    refine ⟨Rows.evicts.row s row h.toRows, ?_⟩
    unfold removeMemoryRow
    split
    next removed moved hrow hlast =>
      exact h.mirrors.removeRow hrow hlast
    · exact h.mirrors
  cache s l _ h := h.congr rfl rfl rfl rfl
  counts s m c h := h.congr rfl rfl rfl rfl

structure Follows (s t : Store) : Prop where
  ann : s.ann.Follows t.ann
  dim : t.embeddingDim = s.embeddingDim

theorem Follows.refl (s : Store) : s.Follows s := ⟨.refl _, rfl⟩

theorem evicts_follows (s : Store) : Evicts s.Follows where
  row t row h := by
    unfold removeMemoryRow
    split
    · exact ⟨h.ann.trans (follows_removeRow ..), h.dim⟩
    · exact h
  cache t l _ h := ⟨h.ann, h.dim⟩
  counts t m c h := ⟨h.ann, h.dim⟩

/-- Memories were evicted, or memories and index are as before. -/
def FewerOrSame (s t : Store) : Prop :=
  t.memories.length < s.memories.length ∨
    t.memories = s.memories ∧ t.ann = s.ann ∧ t.memoryIndex = s.memoryIndex

theorem evicts_fewerOrSame (s : Store) : Evicts s.FewerOrSame where
  row t row h := by
    unfold removeMemoryRow
    split
    next removed moved hrow _ =>
      have hlt : row < t.memories.length := (List.getElem?_eq_some_iff.mp hrow).1
      refine .inl ?_
      rw [length_swapRemove]
      rcases h with h | h
      · omega
      · rw [h.1] at hlt ⊢
        omega
    · exact h
  cache t l _ h := h
  counts t m c h := h

def NoneIndexable (s : Store) : Prop := ∀ r ∈ s.memories, ¬ r.Indexable

theorem NoneIndexable.not_holds (h : s.NoneIndexable) (key : Bytes) (row : Nat) :
    ¬ Holds s.memories key row := by
  rintro ⟨r, hr, -, hind⟩
  exact h r (mem_of_getElem? hr) hind

theorem evicts_noneIndexable : Evicts NoneIndexable where
  row t row h := by
    unfold removeMemoryRow
    split
    · exact fun r hr => h r (mem_of_mem_swapRemove hr)
    · exact h
  cache t l _ h := h
  counts t m c h := h

/-! ## Evictions that find nothing -/

section

variable (h : ∀ r ∈ s.memories, expired r.expiresAtNs now = false)

include h

theorem evictExpiredRows_of_none {fuel : Nat} : (evictExpiredRows now fuel row s).2 = s := by
  induction fuel generalizing row with
  | zero => rfl
  | succ fuel ih =>
    unfold evictExpiredRows
    split
    · rfl
    next r hr =>
      rw [if_neg (by simp [h r (mem_of_getElem? hr)])]
      exact ih

theorem evictExpiredLocked_memories : (s.evictExpiredLocked now).2.memories = s.memories := by
  have hcache : ∀ t : Store, (t.evictExpiredCache now).2.memories = t.memories := fun t => by
    unfold evictExpiredCache
    extract_lets gone
    split <;> rfl
  have hrows : (if 0 < s.expiringMemoryCount then
      evictExpiredRows now s.memories.length 0 s else ([], s)).2 = s := by
    split
    · exact evictExpiredRows_of_none h
    · rfl
  unfold evictExpiredLocked
  extract_lets memories cache evictions
  have hc : cache.2.memories = s.memories := by
    rw [← hrows]
    exact hcache _
  split
  all_goals exact hc

end

theorem evictExpiredLocked_config (s : Store) (now : Int64) :
    (s.evictExpiredLocked now).2.evictionConfig = s.evictionConfig := by
  have hev : Evicts fun t : Store => t.evictionConfig = s.evictionConfig :=
    ⟨fun t row h => by unfold removeMemoryRow; split <;> exact h, fun t l _ h => h,
      fun t m c h => h⟩
  exact hev.evictExpiredLocked now rfl

/-- The limits of a configuration that the memories are within. -/
def WithinLimits (s : Store) (config : EvictionConfig) : Prop :=
  (∀ q ∈ config.tenantQuotas, q.maxMemories = 0 ∨
    s.memories.countP (memoryMatchesQuota q) ≤ q.maxMemories) ∧
  (config.maxMemories = 0 ∨ s.memories.length ≤ config.maxMemories)

theorem limitMemories_of_within {matching : MemoryRecord → Bool}
    (h : most = 0 ∨ s.memories.countP matching ≤ most) :
    (s.limitMemories now matching most).2 = s := by
  unfold limitMemories
  cases s.memories.length with
  | zero => rfl
  | succ fuel =>
    rw [evictWhile, if_neg]
    omega

theorem limitCache_memories {matching : CacheEntry → Bool} :
    (s.limitCache now matching most).2.memories = s.memories := by
  refine Evicts.evictWhile (P := fun t => t.memories = s.memories) (fun t out _ hout h => ?_) rfl
  obtain ⟨ci, -, rfl⟩ := Option.map_eq_some_iff.mp hout
  exact h

theorem enforceEviction_memories (h : s.WithinLimits s.evictionConfig) :
    (s.enforceEviction now).2.memories = s.memories := by
  have hquotas : ∀ (quotas : List TenantQuota) (acc : List EvictionEvent × Store),
      acc.2.memories = s.memories → quotas ⊆ s.evictionConfig.tenantQuotas →
      (quotas.foldl (enforceQuota now) acc).2.memories = s.memories := by
    intro quotas
    induction quotas with
    | nil => exact fun _ h _ => h
    | cons q quotas ih =>
      intro acc hacc hsub
      rw [cons_subset] at hsub
      refine ih _ ?_ hsub.2
      show (limitCache _ _ _ _).2.memories = _
      rw [limitCache_memories, limitMemories_of_within, hacc]
      rw [hacc]
      exact h.1 q hsub.1
  unfold enforceEviction
  extract_lets config quotas memories cache
  have hq : quotas.2.memories = s.memories := hquotas _ ([], s) rfl (.refl _)
  rw [limitCache_memories, limitMemories_of_within, hq]
  rw [hq, countP_true]
  exact h.2

def NothingToEvict (s : Store) (config : EvictionConfig) (now : Int64) : Prop :=
  (config.evictExpiredOnWrite = true → ∀ r ∈ s.memories, expired r.expiresAtNs now = false) ∧
    s.WithinLimits config

theorem evictOnWrite_memories (h : s.NothingToEvict s.evictionConfig now) :
    (s.evictOnWrite now).2.memories = s.memories := by
  unfold evictOnWrite
  extract_lets expiry limits
  have hexp : expiry.2.memories = s.memories ∧ expiry.2.evictionConfig = s.evictionConfig := by
    unfold expiry
    split
    next hw =>
      exact ⟨evictExpiredLocked_memories (h.1 hw), evictExpiredLocked_config s now⟩
    · exact ⟨rfl, rfl⟩
  rw [enforceEviction_memories, hexp.1]
  rw [WithinLimits, hexp.1, hexp.2]
  exact h.2

/-! ## The end of `put_memory` -/

def SamePair (old r : MemoryRecord) : Prop :=
  (old.Indexable ↔ r.Indexable) ∧ (r.Indexable → old.annKey = r.annKey)

theorem holds_set_of_samePair (hold : memories[row]? = some old) (h : SamePair old r) (key : Bytes)
    (i : Nat) : Holds (memories.set row r) key i ↔ Holds memories key i := by
  rw [holds_set (List.getElem?_eq_some_iff.mp hold).1]
  by_cases hi : i = row
  · subst hi
    rw [holds_of_getElem? hold]
    simp only [ne_eq, not_true, and_false, true_and, false_or, h.1]
    exact and_congr_left fun hind => by rw [h.2 hind]
  · simp [hi]

theorem samePair_of_preserves {old r : MemoryRecord} (h : (old.tenantId = r.tenantId &&
    old.namespaceId = r.namespaceId && old.embedding.same r.embedding)) :
    SamePair old r := by
  simp only [Bool.and_eq_true, decide_eq_true_eq] at h
  obtain ⟨⟨ht, hn⟩, he⟩ := h
  have hlen := of_decide_eq_true (Bool.and_eq_true_iff.mp he).1
  refine ⟨?_, fun _ => by rw [MemoryRecord.annKey, MemoryRecord.annKey, ht, hn]⟩
  rw [MemoryRecord.Indexable, MemoryRecord.Indexable, Embedding.hasNorm, Embedding.hasNorm,
    Embedding.normSq_eq_of_same he,
    ← length_pos_iff, ← length_pos_iff, hlen]

theorem follows_settleAnn (t : Store) (wasClean : Bool) (count : Nat) (id : Bytes)
    (p : Placement) : t.ann.Follows (t.settleAnn wasClean count id p) := by
  unfold settleAnn
  cases p with
  | appended row =>
    dsimp only
    split
    · exact follows_orDirty (follows_maintain _ _)
    · exact follows_markDirty _
  | updated row preserves hadEmbedding oldKey =>
    dsimp only
    split
    · exact .refl _
    · split
      · exact follows_orDirty (follows_maintain _ _)
      · exact follows_markDirty _

def Placement.countAfter (count : Nat) : Placement → Nat
  | .appended _ => count + 1
  | .updated .. => count

theorem settleAnn_of_fewer {p : Placement} {count : Nat} (wasClean : Bool) (id : Bytes)
    (h : t.memories.length < p.countAfter count) :
    t.settleAnn wasClean count id p = t.ann.markDirty := by
  unfold settleAnn
  extract_lets n
  cases p with
  | appended row =>
    have hn : n ≠ count + 1 := ne_of_lt h
    simp [hn]
  | updated row preserves hadEmbedding oldKey =>
    have hn : n ≠ count := ne_of_lt h
    simp [hn]

variable {id : Bytes} {ann : AnnState}

theorem settleAnn_appended (h : s.ann.Mirrors dim s.memories)
    (hr : Fits dim r.embedding) (hm : t.memories = s.memories ++ [r]) (ha : t.ann = s.ann)
    (hann : ann = t.settleAnn s.ann.clean s.memories.length id (.appended s.memories.length)) :
    ann.Mirrors dim t.memories ∧ (s.ann.dirty → s.ann.generation < ann.generation) := by
  subst hann
  unfold settleAnn
  extract_lets n
  dsimp only
  split
  next hc =>
    simp only [Bool.and_eq_true, Bool.not_eq_true', ha] at hc
    have hd : s.ann.dirty = false := hc.1.1.2
    refine ⟨?_, fun hdirty => by rw [hd] at hdirty; cases hdirty⟩
    have hget : t.memories.getD s.memories.length default = r := by rw [hm]; simp
    have hn : n = s.memories.length + 1 := by unfold n; rw [hm]; simp
    rw [hget, hn, ha, hm]
    exact h.append hr hd
  · rw [ha]
    exact ⟨mirrors_of_dirty (markDirty_dirty _), fun _ => lt_markDirty_generation _⟩

theorem settleAnn_updated (h : s.ann.Mirrors dim s.memories)
    (hold : s.memories[row]? = some old) (hr : Fits dim r.embedding)
    (hm : t.memories = s.memories.set row r) (ha : t.ann = s.ann)
    (hann : ann = t.settleAnn s.ann.clean s.memories.length id
      (.updated row (old.tenantId = r.tenantId && old.namespaceId = r.namespaceId &&
        old.embedding.same r.embedding) (!old.embedding.isEmpty) old.annKey)) :
    ann.Mirrors dim t.memories ∧
      (s.ann.dirty → s.ann.generation < ann.generation ∨ SamePair old r) := by
  subst hann
  have hlt : row < s.memories.length := (List.getElem?_eq_some_iff.mp hold).1
  unfold settleAnn
  extract_lets n
  dsimp only
  split
  next hc =>
    rw [Bool.and_eq_true] at hc
    have hsame := samePair_of_preserves hc.2
    rw [ha, hm]
    exact ⟨h.congr (holds_set_of_samePair hold hsame), fun _ => .inr hsame⟩
  · split
    next hc =>
      simp only [Bool.and_eq_true, Bool.not_eq_true', ha] at hc
      have hd : s.ann.dirty = false := hc.1.2
      refine ⟨?_, fun hdirty => by rw [hd] at hdirty; cases hdirty⟩
      have hget : t.memories.getD row default = r := by rw [hm]; simp [hlt]
      have hn : n = s.memories.length := by unfold n; rw [hm]; simp
      rw [hget, hn, ha, hm]
      exact h.replace hold hr hd
    · rw [ha]
      exact ⟨mirrors_of_dirty (markDirty_dirty _), fun _ => .inl (lt_markDirty_generation _)⟩

/-! ## The operations -/

theorem dim_of_validate {d : Nat} (h : validateEmbedding d e = .ok dim) : d = 0 ∨ dim = d := by
  rcases validateEmbedding_ok h with ⟨-, hd⟩ | ⟨-, hd, h0 | h0⟩
  · exact .inr hd
  · exact .inl h0
  · exact .inr (hd.trans h0.symm)

theorem Rows.withDimension {dim : Nat} (h : s.Rows)
    (hdim : s.embeddingDim = 0 ∨ dim = s.embeddingDim) (hd : t.embeddingDim = dim)
    (hm : t.memories = s.memories) (hi : t.memoryIndex = s.memoryIndex) : t.Rows := by
  refine ⟨by rw [hm, hi]; exact h.index, fun r hr => ?_⟩
  rw [hm] at hr
  have hfit := h.fits r hr
  rcases hdim with hzero | hsame
  · rw [hzero] at hfit
    exact .inl hfit.of_zero
  · rw [hd, hsame]
    exact hfit

theorem AnnSound.withDimension (h : s.AnnSound)
    (hdim : validateEmbedding s.embeddingDim e = .ok dim) (hd : t.embeddingDim = dim)
    (hm : t.memories = s.memories) (hi : t.memoryIndex = s.memoryIndex) (ha : t.ann = s.ann) :
    t.AnnSound := by
  have hdims := dim_of_validate hdim
  refine ⟨h.toRows.withDimension hdims hd hm hi, fun hdirty => ?_⟩
  rw [ha] at hdirty ⊢
  obtain ⟨hmode, idx, hidx, hmirrors⟩ := h.mirrors hdirty
  refine ⟨hmode, idx, hidx, ?_⟩
  rw [hm, hd]
  rcases hdims with hzero | hsame
  · rw [hzero] at hmirrors
    exact hmirrors.withDimension
  · rw [hsame]
    exact hmirrors

theorem Rows.append (h : s.Rows) (hid : s.memoryIndex.lookup r.memoryId = none)
    (hr : Fits s.embeddingDim r.embedding) (hd : t.embeddingDim = s.embeddingDim)
    (hm : t.memories = s.memories ++ [r])
    (hi : t.memoryIndex = s.memoryIndex.insert r.memoryId s.memories.length) : t.Rows := by
  refine ⟨?_, fun r' hr' => ?_⟩
  · have hindex := h.index.append hid
    rw [length_map] at hindex
    rw [hi, hm, map_append]
    exact hindex
  rw [hm, mem_append, mem_singleton] at hr'
  rw [hd]
  rcases hr' with hr' | rfl
  · exact h.fits r' hr'
  · exact hr

theorem Rows.set (h : s.Rows) (hold : s.memories[row]? = some old) (hid : r.memoryId = old.memoryId)
    (hr : Fits s.embeddingDim r.embedding) (hd : t.embeddingDim = s.embeddingDim)
    (hm : t.memories = s.memories.set row r) (hi : t.memoryIndex = s.memoryIndex) : t.Rows := by
  obtain ⟨hlt, rfl⟩ := List.getElem?_eq_some_iff.mp hold
  refine ⟨?_, fun r' hr' => ?_⟩
  · rw [hi, hm, map_set, hid, ← map_set, set_getElem_self]
    exact h.index
  rw [hm] at hr'
  rw [hd]
  rcases mem_or_eq_of_mem_set hr' with hr' | rfl
  · exact h.fits r' hr'
  · exact hr

theorem Rows.lookup (h : s.Rows) (hrow : s.memoryIndex.lookup id = some row) :
    s.memories[row]? = some (s.memories.getD row default) ∧
      (s.memories.getD row default).memoryId = id := by
  rw [h.index id row, getElem?_map, Option.map_eq_some_iff] at hrow
  obtain ⟨r, hr, rfl⟩ := hrow
  rw [getD_eq_getElem?_getD, hr]
  exact ⟨rfl, rfl⟩

/-- A step raises the generation or leaves the pairs of the memories. -/
def Kept (s t : Store) : Prop :=
  s.ann.generation < t.ann.generation ∨
    ∀ key row, Holds t.memories key row ↔ Holds s.memories key row

/-- The record that `put_memory` puts keeps the pair of its row. -/
def PutsSamePair (s : Store) (r : MemoryRecord) : Prop :=
  match s.memoryIndex.lookup r.memoryId with
  | none => ¬ r.Indexable
  | some row => SamePair (s.memories.getD row default) r

theorem length_of_placeMemory (hp : s.placeMemory r = .ok (placement, placed)) :
    placed.memories.length = placement.countAfter s.memories.length := by
  obtain ⟨row, count, -, rfl, rfl⟩ | ⟨count, -, rfl, rfl⟩ := placeMemory_cases hp
  · exact length_set
  · exact length_append

theorem Rows.placeMemory (h : s.Rows) (hfit : Fits s.embeddingDim r.embedding)
    (hp : s.placeMemory r = .ok (placement, placed)) : placed.Rows := by
  obtain ⟨row, count, hrow, -, rfl⟩ | ⟨count, hrow, -, rfl⟩ := placeMemory_cases hp
  · obtain ⟨hold, hid⟩ := h.lookup hrow
    exact h.set hold hid.symm hfit rfl rfl rfl
  · exact h.append hrow hfit rfl rfl rfl

theorem settle_sound (h : s.AnnSound)
    (hfit : Fits s.embeddingDim r.embedding) (hp : s.placeMemory r = .ok (placement, placed))
    (hfollows : placed.Follows t) (hcases : placed.FewerOrSame t) (hrows : t.Rows)
    (hann : ann = t.settleAnn s.ann.clean s.memories.length id placement) :
    ({ t with ann } : Store).AnnSound ∧
      (s.ann.dirty ∨ s.PutsSamePair r → s.Kept { t with ann }) := by
  have hannEq : placed.ann = s.ann ∧ placed.embeddingDim = s.embeddingDim := by
    obtain ⟨row, count, -, -, rfl⟩ | ⟨count, -, -, rfl⟩ := placeMemory_cases hp <;>
      exact ⟨rfl, rfl⟩
  have hdim : t.embeddingDim = s.embeddingDim := hfollows.dim.trans hannEq.2
  rcases hcases with hfewer | ⟨hm, ha, -⟩
  · rw [length_of_placeMemory hp] at hfewer
    rw [hann, settleAnn_of_fewer s.ann.clean id hfewer]
    refine ⟨⟨⟨hrows.index, hrows.fits⟩, mirrors_of_dirty (markDirty_dirty _)⟩, fun _ => .inl ?_⟩
    have hle := hfollows.ann.generation_le
    rw [hannEq.1] at hle
    exact hle.trans_lt (lt_markDirty_generation _)
  · rw [hannEq.1] at ha
    obtain ⟨row, count, hrow, rfl, rfl⟩ | ⟨count, hrow, rfl, rfl⟩ := placeMemory_cases hp
    · obtain ⟨hold, -⟩ := h.toRows.lookup hrow
      obtain ⟨hmirrors, hkept⟩ := settleAnn_updated h.mirrors hold hfit hm ha hann
      refine ⟨⟨⟨hrows.index, hrows.fits⟩, ?_⟩, fun hc => ?_⟩
      · rw [← hdim] at hmirrors
        exact hmirrors
      have hsame (hs : SamePair (s.memories.getD row default) r) (key : Bytes) (i : Nat) :
          Holds t.memories key i ↔ Holds s.memories key i := by
        rw [hm]
        exact holds_set_of_samePair hold hs key i
      rcases hc with hdirty | hpair
      · exact (hkept hdirty).imp_right hsame
      · rw [PutsSamePair, hrow] at hpair
        exact .inr (hsame hpair)
    · obtain ⟨hmirrors, hraised⟩ := settleAnn_appended h.mirrors hfit hm ha hann
      refine ⟨⟨⟨hrows.index, hrows.fits⟩, ?_⟩, fun hc => ?_⟩
      · rw [← hdim] at hmirrors
        exact hmirrors
      rcases hc with hdirty | hpair
      · exact .inl (hraised hdirty)
      rw [PutsSamePair, hrow] at hpair
      refine .inr fun key i => ?_
      rw [hm]
      refine holds_append.trans (or_iff_left ?_)
      exact fun hh => hpair hh.2.2

theorem putMemory_sound (h : s.AnnSound) : (s.putMemory r clock now).2.AnnSound ∧
      (s.ann.dirty ∨ s.PutsSamePair (s.completeMemory r clock) →
        s.Kept (s.putMemory r clock now).2) := by
  have hprepared : ∀ dim, validateEmbedding s.embeddingDim r.embedding = .ok dim →
      (s.prepared r dim).AnnSound := fun dim hdim => h.withDimension hdim rfl rfl rfl rfl
  refine putMemory_cases (P := fun t => t.AnnSound ∧
    (s.ann.dirty ∨ s.PutsSamePair (s.completeMemory r clock) → s.Kept t))
    ⟨h, fun _ => .inr fun _ _ => .rfl⟩
    (fun dim hdim => ⟨hprepared dim hdim, fun _ => .inr fun _ _ => .rfl⟩)
    fun dim placement placed hdim hp => ?_
  have hfit : Fits (s.prepared r dim).embeddingDim
      (estimated (s.completeMemory r clock)).embedding := fits_of_validate hdim
  exact settle_sound (s := s.prepared r dim) (r := estimated (s.completeMemory r clock))
    (hprepared dim hdim) hfit hp
    ((evicts_follows placed).evictOnWrite (.refl _))
    ((evicts_fewerOrSame placed).evictOnWrite (.inr ⟨rfl, rfl, rfl⟩))
    (Rows.evicts.evictOnWrite ((hprepared dim hdim).toRows.placeMemory hfit hp)) rfl

theorem holds_of_map_eq {memories memories' : List MemoryRecord}
    (h : memories'.map (fun r => (r.annKey, r.embedding)) =
      memories.map fun r => (r.annKey, r.embedding)) (key : Bytes) (row : Nat) :
    Holds memories' key row ↔ Holds memories key row := by
  have hrow := congrArg (·[row]?) h
  simp only [getElem?_map] at hrow
  cases hm : memories[row]? with
  | none =>
    cases hm' : memories'[row]? with
    | none => simp [Holds, hm, hm']
    | some r => rw [hm, hm'] at hrow; cases hrow
  | some r =>
    cases hm' : memories'[row]? with
    | none => rw [hm, hm'] at hrow; cases hrow
    | some r' =>
      rw [hm, hm', Option.map_some, Option.map_some, Option.some.injEq, Prod.mk.injEq] at hrow
      rw [holds_of_getElem? hm, holds_of_getElem? hm', MemoryRecord.Indexable,
        MemoryRecord.Indexable, hrow.1, hrow.2]

theorem search_sound {q : MemoryQuery} {rows : List Nat} (h : s.AnnSound) :
    (s.search q now rows).AnnSound ∧ s.Kept (s.search q now rows) := by
  refine search_frame (P := fun t => t.AnnSound ∧ s.Kept t) fun ann memories hann hmap => ?_
  have hholds := holds_of_map_eq (hmap _ fun _ _ _ => rfl)
  refine ⟨⟨⟨?_, ?_⟩, ?_⟩, .inr hholds⟩
  · show Indexes s.memoryIndex (memories.map (·.memoryId))
    rw [hmap (·.memoryId) fun _ _ _ => rfl]
    exact h.index
  · intro r hr
    have he : r.embedding ∈ s.memories.map (·.embedding) := by
      rw [← hmap (·.embedding) fun _ _ _ => rfl]
      exact mem_map_of_mem hr
    obtain ⟨r', hr', he'⟩ := mem_map.mp he
    exact he' ▸ h.fits r' hr'
  · show ann.Mirrors s.embeddingDim memories
    rcases hann with rfl | rfl
    · exact h.mirrors.congr hholds
    · obtain ⟨q, g, hq⟩ := s.ann.requestRebuild_eq
      rw [hq]
      exact h.mirrors.congr hholds

theorem storeCache_sound {c : CacheEntry} (h : s.AnnSound) :
    (s.storeCache c clock now).2.AnnSound := by
  refine storeCache_cases h (fun dim next hdim => h.withDimension hdim rfl rfl rfl rfl)
    fun dim placed hdim hp => AnnSound.evicts.evictOnWrite ?_
  have hprepared : (s.preparedCache c dim).AnnSound := h.withDimension hdim rfl rfl rfl rfl
  obtain ⟨i, count, -, rfl⟩ | ⟨count, -, rfl⟩ := placeCache_cases hp
  all_goals exact hprepared.congr rfl rfl rfl rfl

/-- The loop of `restore_evicted_entries` leaves the index alone; the end marks it dirty when a
memory was restored. -/
structure RestoreSound (s : Store) (acc : Restoring) : Prop where
  rows : acc.store.Rows
  ann : acc.store.ann = s.ann
  dim : s.embeddingDim = 0 ∨ acc.store.embeddingDim = s.embeddingDim
  same : acc.memory = false → acc.store.AnnSound ∧ acc.store.memories = s.memories

theorem RestoreSound.dim_of_validate {acc : Restoring} (h : s.RestoreSound acc)
    (hdim : validateEmbedding acc.store.embeddingDim e = .ok dim) :
    s.embeddingDim = 0 ∨ dim = s.embeddingDim := by
  have hd := Store.dim_of_validate hdim
  have := h.dim
  omega

theorem restoreSound (h : s.AnnSound) (evictions : List EvictionEvent) :
    s.RestoreSound (evictions.reverse.foldl restoreOne { store := s }) := by
  refine restore_induction (P := s.RestoreSound) evictions (fun e _ acc t hacc ht => ?_)
    (fun e _ _ acc t hacc ht => ?_) _ ⟨h.toRows, rfl, .inr rfl, fun _ => ⟨h, rfl⟩⟩
  · obtain ⟨hid, dim, count, hdim, rfl⟩ := restoreMemory_eq_some ht
    refine ⟨?_, hacc.ann, hacc.dim_of_validate hdim, nofun⟩
    have hrows : (acc.store.adoptDimension dim).Rows :=
      hacc.rows.withDimension (dim_of_validate hdim) rfl rfl rfl
    exact hrows.append hid (fits_of_validate hdim) rfl rfl rfl
  · obtain ⟨dim, count, hdim, rfl⟩ := restoreCache_eq_some ht
    refine ⟨hacc.rows.withDimension (dim_of_validate hdim) rfl rfl rfl, hacc.ann,
      hacc.dim_of_validate hdim, fun hmem => ?_⟩
    obtain ⟨hsound, hsame⟩ := hacc.same hmem
    exact ⟨hsound.withDimension hdim rfl rfl rfl rfl, hsame⟩

theorem restore_sound (h : s.AnnSound) (evictions : List EvictionEvent) :
    (s.restoreEvictedEntries evictions).2.AnnSound ∧
      s.Kept (s.restoreEvictedEntries evictions).2 := by
  have hdone := restoreSound h evictions
  unfold restoreEvictedEntries
  extract_lets done
  unfold finishRestore
  cases hmem : done.memory with
  | false =>
    obtain ⟨hsound, hsame⟩ := hdone.same hmem
    refine ⟨hsound.congr rfl rfl rfl rfl, .inr fun key row => ?_⟩
    rw [hsame]
  | true =>
    refine ⟨⟨hdone.rows.congr rfl rfl rfl, mirrors_of_dirty (markDirty_dirty _)⟩, .inl ?_⟩
    rw [← hdone.ann]
    exact lt_markDirty_generation _

theorem indexes_of_indexMemories {l : List MemoryRecord} (l' : List MemoryRecord)
    {m index : AList (fun _ : Bytes => Nat)} (hm : Indexes m (l'.map (·.memoryId)))
    (h : indexMemories dim l'.length l m = .ok index) :
    Indexes index ((l' ++ l).map (·.memoryId)) := by
  induction l generalizing l' m with
  | nil =>
    rw [append_nil]
    exact Except.ok.inj h ▸ hm
  | cons r l ih =>
    unfold indexMemories at h
    split at h
    · cases h
    split at h
    · cases h
    rename_i hfresh
    rw [← AList.lookup_eq_none] at hfresh
    have hnext := hm.append hfresh
    rw [length_map] at hnext
    have hrest := ih (l' ++ [r]) (by rw [map_append]; exact hnext) (by rw [length_append]; exact h)
    rwa [append_assoc] at hrest

theorem load_sound {directory : Bytes} {files : SnapshotDir} (h : s.AnnSound) :
    (s.loadFromDirectory directory files).2.AnnSound ∧
      s.Kept (s.loadFromDirectory directory files).2 := by
  refine load_cases (P := fun t => t.AnnSound ∧ s.Kept t) ⟨h, .inr fun _ _ => .rfl⟩
    fun _ _ v index _ _ _ hindex => ⟨⟨⟨?_, Tracks.fits_of_indexMemories hindex⟩,
      mirrors_of_dirty (markDirty_dirty _)⟩, .inl (lt_markDirty_generation _)⟩
  exact indexes_of_indexMemories [] .empty hindex

theorem annSound_empty : AnnSound {} := ⟨⟨.empty, nofun⟩, nofun⟩

/-- Every operation keeps an index that is not dirty one of the memories. -/
theorem AnnSound.step (h : s.AnnSound) (e : StoreEvent) : (storeMachine.step s e).2.AnnSound := by
  cases e with
  | putMemory r clock now => exact (putMemory_sound h).1
  | removeMemory id tenant => exact evicts.removeMemory h
  | search q now rows => exact (search_sound h).1
  | storeCache c clock now => exact storeCache_sound h
  | removeCache t n p => exact removeCache_frame fun _ _ _ => h.congr rfl rfl rfl rfl
  | lookupCache l clock => exact lookupCache_frame fun _ => h.congr rfl rfl rfl rfl
  | setEvictionConfig config now => exact evicts.evictOnWrite (h.congr rfl rfl rfl rfl)
  | setAnnConfig config =>
    exact ⟨h.toRows.congr rfl rfl rfl, mirrors_of_dirty (markDirty_dirty _)⟩
  | setIdConfig config => exact h.congr rfl rfl rfl rfl
  | evictExpired nowArg clock => exact evicts.evictExpiredLocked _ h
  | restoreEvictedEntries evictions => exact (restore_sound h evictions).1
  | loadFromDirectory directory files => exact (load_sound h).1
  | clear => exact ⟨⟨.empty, nofun⟩, nofun⟩

end

end Store

end Zepto.Ai
