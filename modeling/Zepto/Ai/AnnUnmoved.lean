import Zepto.Ai.AnnSteps

/-!
# Operations that leave the pairs of the memories

An operation never takes the generation of the index back (`moves_step`). `Unmoved` is a condition
on an operation and the state it finds under which the operation raises the generation or leaves
the pairs of the memories as they are (`kept_of_unmoved`).
-/

namespace Zepto.Ai

open Zepto.Lib

namespace Store

variable {s t : Store}

/-! ## Generations -/

section

variable {clock now : Int64} {c : CacheEntry} {config : EvictionConfig}

/-- The generation does not go back; while it stays, so do the mode and a fixed dimension. -/
structure Moves (s t : Store) : Prop where
  generation_le : s.ann.generation ≤ t.ann.generation
  same : t.ann.generation = s.ann.generation →
    t.ann.config = s.ann.config ∧ (s.embeddingDim = 0 ∨ t.embeddingDim = s.embeddingDim)

theorem Moves.of_follows (ha : s.ann.Follows t.ann)
    (hd : s.embeddingDim = 0 ∨ t.embeddingDim = s.embeddingDim) : s.Moves t :=
  ⟨ha.generation_le, fun _ => ⟨ha.config_eq, hd⟩⟩

theorem Moves.of_raised (h : s.ann.generation < t.ann.generation) : s.Moves t :=
  ⟨h.le, fun heq => absurd heq h.ne'⟩

theorem Moves.of_eq (ha : t.ann = s.ann) (hd : t.embeddingDim = s.embeddingDim) : s.Moves t :=
  .of_follows (ha.symm ▸ .refl _) (.inr hd)

theorem putMemory_moves {r : MemoryRecord} : s.Moves (s.putMemory r clock now).2 := by
  refine putMemory_cases (.of_eq rfl rfl)
    (fun dim hdim => .of_follows (.refl _) (dim_of_validate hdim))
    fun dim placement placed hdim hp => ?_
  have hplaced : placed.ann = s.ann ∧ placed.embeddingDim = dim := by
    obtain ⟨row, count, -, -, rfl⟩ | ⟨count, -, -, rfl⟩ := placeMemory_cases hp <;>
      exact ⟨rfl, rfl⟩
  have hf : placed.Follows (placed.evictOnWrite now).2 :=
    (evicts_follows placed).evictOnWrite (.refl _)
  have hann := hf.ann.trans (follows_settleAnn _ s.ann.clean s.memories.length
    (s.completeMemory r clock).memoryId placement)
  rw [hplaced.1] at hann
  refine .of_follows hann ?_
  rw [hf.dim, hplaced.2]
  exact dim_of_validate hdim

theorem storeCache_moves : s.Moves (s.storeCache c clock now).2 := by
  refine storeCache_cases (.of_eq rfl rfl)
    (fun dim next hdim => .of_follows (.refl _) (dim_of_validate hdim))
    fun dim placed hdim hp => ?_
  have hplaced : placed.ann = s.ann ∧ placed.embeddingDim = dim := by
    obtain ⟨i, count, -, rfl⟩ | ⟨count, -, rfl⟩ := placeCache_cases hp <;> exact ⟨rfl, rfl⟩
  have hf : placed.Follows (placed.evictOnWrite now).2 :=
    (evicts_follows placed).evictOnWrite (.refl _)
  refine .of_follows (hplaced.1 ▸ hf.ann) ?_
  rw [hf.dim, hplaced.2]
  exact dim_of_validate hdim

theorem moves_step (h : s.AnnSound) (e : StoreEvent) : s.Moves (storeMachine.step s e).2 := by
  have hevicts : Evicts s.Follows := evicts_follows s
  have hfollows {t : Store} (h : s.Follows t) : s.Moves t := .of_follows h.ann (.inr h.dim)
  cases e with
  | putMemory r clock now => exact putMemory_moves
  | removeMemory id tenant => exact hfollows (hevicts.removeMemory (.refl _))
  | search q now rows =>
    refine search_frame fun ann memories hann _ => .of_follows ?_ (.inr rfl)
    rcases hann with rfl | rfl
    · exact .refl _
    · obtain ⟨q, g, hq⟩ := s.ann.requestRebuild_eq
      rw [hq]
      exact ⟨le_refl _, rfl⟩
  | storeCache c clock now => exact storeCache_moves
  | removeCache t n p => exact removeCache_frame fun _ _ _ => .of_eq rfl rfl
  | lookupCache l clock => exact lookupCache_frame fun _ => .of_eq rfl rfl
  | setEvictionConfig config now => exact hfollows (hevicts.evictOnWrite ⟨.refl _, rfl⟩)
  | setAnnConfig config =>
    exact .of_raised ((AnnState.lt_markDirty_generation _).trans_le' le_rfl)
  | setIdConfig config => exact .of_eq rfl rfl
  | evictExpired nowArg clock => exact hfollows (hevicts.evictExpiredLocked _ (.refl _))
  | restoreEvictedEntries evictions =>
    have hdone := restoreSound h evictions
    refine .of_follows ?_ hdone.dim
    show s.ann.Follows (if _ then _ else _)
    rw [hdone.ann]
    split
    · exact AnnState.follows_markDirty _
    · exact .refl _
  | loadFromDirectory directory files =>
    exact load_cases (.of_eq rfl rfl) fun _ _ _ _ _ _ _ _ =>
      .of_raised (AnnState.lt_markDirty_generation _)
  | clear => exact .of_raised (Nat.lt_succ_self _)

/-! ## Operations that leave the pairs -/

/-- An eviction at this time removes and moves no memory with a pair. -/
def EvictsNoPair (s : Store) (config : EvictionConfig) (now : Int64) : Prop :=
  s.NoneIndexable ∨ s.NothingToEvict config now

/-- `remove_memory` refuses, or neither the removed row nor the last one has a pair. -/
def RemovesNoPair (s : Store) (memoryId tenantId : Bytes) : Prop :=
  ∀ row, s.memoryIndex.lookup memoryId = some row →
    (tenantId ≠ [] ∧ (s.memories.getD row default).tenantId ≠ tenantId) ∨
    (¬ (s.memories.getD row default).Indexable ∧ ∀ r, s.memories.getLast? = some r → ¬ r.Indexable)

/-- The operation raises the generation or leaves the pairs of the memories. -/
def Unmoved (s : Store) : StoreEvent → Prop
  | .putMemory r clock _ => s.ann.dirty = true ∨ s.PutsSamePair (s.completeMemory r clock)
  | .removeMemory id tenant => s.RemovesNoPair id tenant
  | .storeCache _ _ now => s.EvictsNoPair s.evictionConfig now
  | .setEvictionConfig config now => s.EvictsNoPair config now
  | .evictExpired nowArg clock =>
    s.NoneIndexable ∨
      ∀ r ∈ s.memories, expired r.expiresAtNs (if nowArg = 0 then clock else nowArg) = false
  | _ => True

theorem Kept.of_memories (h : t.memories = s.memories) : s.Kept t := .inr fun key row => by rw [h]

theorem Kept.of_none (h : s.NoneIndexable) (h' : t.NoneIndexable) : s.Kept t :=
  .inr fun key row => iff_of_false (h'.not_holds key row) (h.not_holds key row)

theorem kept_evictOnWrite (h : s.EvictsNoPair s.evictionConfig now) :
    s.Kept (s.evictOnWrite now).2 := by
  rcases h with h | h
  · exact .of_none h (evicts_noneIndexable.evictOnWrite h)
  · exact .of_memories (evictOnWrite_memories h)

theorem kept_removeMemoryRow {row : Nat} (hrow : ¬ (s.memories.getD row default).Indexable)
    (hlast : ∀ r, s.memories.getLast? = some r → ¬ r.Indexable) :
    s.Kept (s.removeMemoryRow row) := by
  unfold removeMemoryRow
  split
  next removed moved hremoved hmoved =>
    have hlt := (getElem?_eq_some_iff.mp hremoved).1
    rw [List.getD_eq_getElem?_getD, hremoved] at hrow
    have hnot (key : Bytes) : ¬ Holds s.memories key row := fun hh =>
      hrow ((holds_of_getElem? hremoved).mp hh).2
    rw [List.getLast?_eq_getElem?] at hmoved hlast
    have hnotLast (key : Bytes) : ¬ Holds s.memories key (s.memories.length - 1) := fun hh =>
      hlast moved hmoved ((holds_of_getElem? hmoved).mp hh).2
    refine .inr fun key i => ?_
    rw [holds_swapRemove hlt]
    by_cases hi : i = row
    · subst hi
      simp [hnot, hnotLast]
    rw [if_neg hi, and_iff_right_iff_imp]
    exact fun hh => hh.succ_lt fun hend => hnotLast key (hend ▸ hh)
  · exact .of_memories rfl

theorem kept_storeCache (h : s.EvictsNoPair s.evictionConfig now) :
    s.Kept (s.storeCache c clock now).2 := by
  refine storeCache_cases (.of_memories rfl) (fun dim next _ => .of_memories rfl)
    fun dim placed _ hp => ?_
  have hplaced : placed.memories = s.memories ∧ placed.evictionConfig = s.evictionConfig ∧
      placed.ann = s.ann := by
    obtain ⟨i, count, -, rfl⟩ | ⟨count, -, rfl⟩ := placeCache_cases hp <;> exact ⟨rfl, rfl, rfl⟩
  have hno : placed.EvictsNoPair placed.evictionConfig now := by
    rw [EvictsNoPair, NoneIndexable, NothingToEvict, WithinLimits, hplaced.1, hplaced.2.1]
    exact h
  have hkept := kept_evictOnWrite hno
  rw [Kept, hplaced.1, hplaced.2.2] at hkept
  exact hkept

theorem kept_setEvictionConfig (h : s.EvictsNoPair config now) :
    s.Kept (s.setEvictionConfig config now) := by
  unfold setEvictionConfig
  extract_lets quotas
  have hno : ({ s with evictionConfig := { config with tenantQuotas := quotas } }
      : Store).EvictsNoPair
      { config with tenantQuotas := quotas } now := h.imp_right fun hnone =>
    ⟨hnone.1, fun q hq => hnone.2.1 q (List.mem_of_mem_filter hq), hnone.2.2⟩
  have hkept := kept_evictOnWrite hno
  exact hkept

theorem kept_of_unmoved (hs : s.AnnSound) (e : StoreEvent) (h : s.Unmoved e) :
    s.Kept (storeMachine.step s e).2 := by
  cases e with
  | putMemory r clock now => exact (putMemory_sound hs).2 h
  | removeMemory id tenant =>
    obtain heq | ⟨row, count, hrow, htenant, heq⟩ := removeMemory_cases s id tenant
    · exact .of_memories (congrArg memories heq)
    rcases h row hrow with ⟨hne, hne'⟩ | ⟨hremoved, hlast⟩
    · exact absurd htenant (not_or.mpr ⟨hne, hne'⟩)
    · show s.Kept (s.removeMemory id tenant).2
      rw [heq]
      exact kept_removeMemoryRow (s := { s with expiringMemoryCount := count }) hremoved hlast
  | search q now rows => exact (search_sound hs).2
  | storeCache c clock now => exact kept_storeCache h
  | removeCache t n p => exact removeCache_frame fun _ _ _ => .of_memories rfl
  | lookupCache l clock => exact lookupCache_frame fun _ => .of_memories rfl
  | setEvictionConfig config now => exact kept_setEvictionConfig h
  | setAnnConfig config | setIdConfig config => exact .of_memories rfl
  | evictExpired nowArg clock =>
    rcases h with h | h
    · exact .of_none h (evicts_noneIndexable.evictExpiredLocked _ h)
    · exact .of_memories (evictExpiredLocked_memories h)
  | restoreEvictedEntries evictions => exact (restore_sound hs evictions).2
  | loadFromDirectory directory files => exact (load_sound hs).2
  | clear => exact .inl (Nat.lt_succ_self _)

end

end Store

end Zepto.Ai
