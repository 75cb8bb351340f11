import Zepto.Ai.AnnSteps

/-!
# Records that evictions spare

A write first evicts what is expired and then, limit by limit, the weakest records over it. It
leaves a record alone that is not expired and that no exceeded limit reaches: the limit is not about
the record, or there is room, or the record is pinned (`Spares.survives`). Whether there is room is
seen on the store before the write.
-/

namespace Zepto.Ai

open List Zepto.Lib

namespace Store

variable {s placed : Store} {r new : MemoryRecord} {config : EvictionConfig} {now : Int64}
  {matching : MemoryRecord → Bool} {most row : Nat}

/-- A limit on the memories that match, once there are `count` of them, does not reach `r`. -/
def OutOfReach (config : EvictionConfig) (r : MemoryRecord) (matching : MemoryRecord → Bool)
    (most count : Nat) : Prop :=
  most = 0 ∨ matching r = false ∨ (config.protectPinned && r.pinned) = true ∨ count ≤ most

instance (most count : Nat) : Decidable (OutOfReach config r matching most count) :=
  inferInstanceAs (Decidable (_ ∨ _ ∨ _ ∨ _))

/-- The record is there, and no limit reaches it. -/
structure Spared (config : EvictionConfig) (r : MemoryRecord) (s : Store) : Prop where
  config_eq : s.evictionConfig = config
  mem : r ∈ s.memories
  quotas : ∀ q ∈ config.tenantQuotas, OutOfReach config r (memoryMatchesQuota q) q.maxMemories
    (s.memories.countP (memoryMatchesQuota q))
  all : OutOfReach config r (fun _ => true) config.maxMemories (s.memories.countP fun _ => true)

/-! ## One record goes -/

theorem OutOfReach.mono {count count' : Nat} (h : OutOfReach config r matching most count)
    (hle : count' ≤ count) : OutOfReach config r matching most count' :=
  h.imp_right (.imp_right (.imp_right hle.trans))

theorem Spared.congr {t : Store} (h : s.Spared config r) (hm : t.memories = s.memories)
    (hc : t.evictionConfig = s.evictionConfig) : t.Spared config r :=
  ⟨hc.trans h.config_eq, hm ▸ h.mem, by rw [hm]; exact h.quotas, by rw [hm]; exact h.all⟩

theorem Spared.removeMemoryRow (h : s.Spared config r) {gone : MemoryRecord}
    (hgone : s.memories[row]? = some gone) (hne : gone ≠ r) :
    (s.removeMemoryRow row).Spared config r := by
  have hlast : s.memories.getLast? ≠ none := by
    rw [Ne, getLast?_eq_none_iff]
    exact ne_nil_of_mem h.mem
  obtain ⟨moved, hmoved⟩ := Option.ne_none_iff_exists'.mp hlast
  have hperm := perm_swapRemove hgone
  have hle (p : MemoryRecord → Bool) :
      (swapRemove s.memories row).countP p ≤ s.memories.countP p := by
    rw [← hperm.countP_eq p, countP_cons]
    exact Nat.le_add_right _ _
  unfold Store.removeMemoryRow
  simp only [hgone, hmoved]
  refine ⟨h.config_eq, ?_, fun q hq => (h.quotas q hq).mono (hle _), h.all.mono (hle _)⟩
  exact (mem_cons.mp (hperm.mem_iff.mpr h.mem)).resolve_left (Ne.symm hne)

theorem weakest_spec {α : Type} {eligible : α → Bool} {score : α → Float} {created : α → Int64}
    {l : List α} {ai : α × Nat} (h : weakest eligible score created l = some ai) :
    eligible ai.1 = true ∧ l[ai.2]? = some ai.1 := by
  have hbest : ∀ ai ∈ weakest eligible score created l, eligible ai.1 = true ∧ ai ∈ l.zipIdx := by
    refine foldlRecOn (motive := fun best : Option (α × Nat) =>
      ∀ ai ∈ best, eligible ai.1 = true ∧ ai ∈ l.zipIdx) _ _ nofun fun best hbest next hnext => ?_
    unfold weaker
    split
    · exact hbest
    next heligible =>
      have hnew : ∀ ai ∈ some next, eligible ai.1 = true ∧ ai ∈ l.zipIdx := by
        rintro _ ⟨⟩
        exact ⟨by simpa using heligible, hnext⟩
      split
      · exact hnew
      · split
        · exact hnew
        · exact hbest
  obtain ⟨heligible, hmem⟩ := hbest ai h
  exact ⟨heligible, by simpa using mem_zipIdx_iff_getElem?.mp hmem⟩

theorem Spared.evictOneMemory (h : s.Spared config r) {out : EvictionEvent × Store}
    (hreach : OutOfReach config r matching most (s.memories.countP matching))
    (hover : 0 < most ∧ most < s.memories.countP matching)
    (hout : evictOneMemory now matching s = some out) : out.2.Spared config r := by
  obtain ⟨ri, hri, rfl⟩ := Option.map_eq_some_iff.mp hout
  obtain ⟨heligible, hrow⟩ := weakest_spec hri
  rw [h.config_eq, Bool.and_eq_true, Bool.not_eq_true'] at heligible
  refine Spared.removeMemoryRow (s := { s with expiringMemoryCount := forget _ _ })
    (h.congr rfl rfl) hrow ?_
  rintro rfl
  rcases hreach with hzero | hmatch | hpinned | hroom
  · omega
  · exact Bool.noConfusion (hmatch.symm.trans heligible.1)
  · exact Bool.noConfusion (hpinned.symm.trans heligible.2)
  · omega

/-! ## A whole write -/

theorem Spared.limitMemories (h : s.Spared config r) (hlimit : ∀ t : Store, t.Spared config r →
      OutOfReach config r matching most (t.memories.countP matching)) :
    (s.limitMemories now matching most).2.Spared config r :=
  Evicts.evictWhile
    (fun t _ hover hout ht => ht.evictOneMemory (hlimit t ht) hover hout) h

theorem Spared.limitCache (h : s.Spared config r) {matching : CacheEntry → Bool} :
    (s.limitCache now matching most).2.Spared config r := by
  refine Evicts.evictWhile (fun t out _ hout ht => ?_) h
  obtain ⟨ci, -, rfl⟩ := Option.map_eq_some_iff.mp hout
  exact ht.congr rfl rfl

theorem Spared.enforceEviction (h : s.Spared config r) :
    (s.enforceEviction now).2.Spared config r := by
  have hquotas : ∀ (quotas : List TenantQuota) (acc : List EvictionEvent × Store),
      acc.2.Spared config r → quotas ⊆ config.tenantQuotas →
      (quotas.foldl (enforceQuota now) acc).2.Spared config r := by
    intro quotas
    induction quotas with
    | nil => exact fun _ h _ => h
    | cons q quotas ih =>
      intro acc hacc hsub
      rw [cons_subset] at hsub
      exact ih _ (hacc.limitMemories fun t ht => ht.quotas q hsub.1).limitCache hsub.2
  unfold Store.enforceEviction
  rw [h.config_eq]
  exact ((hquotas _ ([], s) h (.refl _)).limitMemories fun t ht => ht.all).limitCache

theorem Spared.evictExpiredRows (h : s.Spared config r) (hr : expired r.expiresAtNs now = false)
    {fuel : Nat} : (evictExpiredRows now fuel row s).2.Spared config r := by
  induction fuel generalizing s row with
  | zero => exact h
  | succ fuel ih =>
    unfold Store.evictExpiredRows
    split
    · exact h
    next gone hgone =>
      split
      next hexpired =>
        refine ih (h.removeMemoryRow hgone ?_)
        rintro rfl
        exact Bool.noConfusion (hr.symm.trans hexpired)
      · exact ih h

theorem Spared.evictExpiredLocked (h : s.Spared config r)
    (hr : expired r.expiresAtNs now = false) : (s.evictExpiredLocked now).2.Spared config r := by
  have hcache : ∀ t : Store, t.Spared config r → (t.evictExpiredCache now).2.Spared config r := by
    intro t ht
    unfold evictExpiredCache
    extract_lets gone
    split
    · exact ht
    · exact ht.congr rfl rfl
  have hrows : (if 0 < s.expiringMemoryCount then
      Store.evictExpiredRows now s.memories.length 0 s else ([], s)).2.Spared config r := by
    split
    · exact h.evictExpiredRows hr
    · exact h
  unfold Store.evictExpiredLocked
  extract_lets memories cache evictions
  split
  · exact hcache _ hrows
  · exact (hcache _ hrows).congr rfl rfl

theorem Spared.evictOnWrite (h : s.Spared config r)
    (hr : config.evictExpiredOnWrite = true → expired r.expiresAtNs now = false) :
    (s.evictOnWrite now).2.Spared config r := by
  refine Spared.enforceEviction ?_
  split
  next hwrite =>
    exact h.evictExpiredLocked (hr (h.config_eq ▸ hwrite))
  · exact h

/-! ## The store before the write -/

/-- The records the new one joins. -/
def others (s : Store) (new : MemoryRecord) (matching : MemoryRecord → Bool) : Nat :=
  s.memories.countP fun r => r.memoryId ≠ new.memoryId && matching r

/-- The write of `new` does not evict it: it is not expired, and no limit reaches it once it joins
the other records. -/
structure Spares (s : Store) (new : MemoryRecord) (now : Int64) : Prop where
  unexpired : s.evictionConfig.evictExpiredOnWrite = true → expired new.expiresAtNs now = false
  quotas : ∀ q ∈ s.evictionConfig.tenantQuotas, OutOfReach s.evictionConfig new
    (memoryMatchesQuota q) q.maxMemories (s.others new (memoryMatchesQuota q) + 1)
  all : OutOfReach s.evictionConfig new (fun _ => true) s.evictionConfig.maxMemories
    (s.others new (fun _ => true) + 1)

theorem Rows.nodup (h : s.Rows) : (s.memories.map (·.memoryId)).Nodup := by
  rw [nodup_iff_injective_getElem]
  intro i j hij
  refine Fin.ext (h.index.inj (getElem?_eq_getElem i.2) ?_)
  rw [getElem?_eq_getElem j.2]
  exact congrArg some hij.symm

theorem countP_placed_le (hplaced : placed.Rows) {p : Placement}
    (hp : s.placeMemory new = .ok (p, placed)) (matching : MemoryRecord → Bool) :
    placed.memories.countP matching ≤ s.others new matching + 1 := by
  have hother : placed.memories.countP (fun r => r.memoryId ≠ new.memoryId && matching r) ≤
      s.others new matching := by
    obtain ⟨row, count, -, -, rfl⟩ | ⟨count, -, -, rfl⟩ := placeMemory_cases hp
    · rcases lt_or_ge row s.memories.length with hlt | hge
      · simp [others, countP_set hlt]
      · exact (congrArg (countP _) (set_eq_of_length_le hge)).le
    · simp [others]
  have hsame : placed.memories.countP (fun r => r.memoryId = new.memoryId) ≤ 1 := by
    have hcount := nodup_iff_count_le_one.mp hplaced.nodup new.memoryId
    rw [count, countP_map] at hcount
    exact (countP_congr fun r _ => by simp).trans_le hcount
  have hsplit := countP_eq_countP_filter_add placed.memories matching
    fun r => r.memoryId ≠ new.memoryId
  have hleft : (placed.memories.filter fun r => r.memoryId ≠ new.memoryId).countP matching =
      placed.memories.countP fun r => r.memoryId ≠ new.memoryId && matching r := by
    rw [countP_filter]
    exact countP_congr fun r _ => by simp [and_comm]
  have hright : (placed.memories.filter fun r => !decide (r.memoryId ≠ new.memoryId)).countP
      matching ≤ placed.memories.countP fun r => r.memoryId = new.memoryId := by
    rw [countP_filter]
    refine countP_mono_left fun r _ h => ?_
    rw [Bool.and_eq_true] at h
    simpa using h.2
  omega

theorem Spares.survives (h : s.Spares new now) (hs : s.Rows) (hplaced : placed.Rows) {p : Placement}
    (hp : s.placeMemory new = .ok (p, placed)) : new ∈ (placed.evictOnWrite now).2.memories := by
  have hle := countP_placed_le hplaced hp
  have hmem : new ∈ placed.memories ∧ placed.evictionConfig = s.evictionConfig := by
    obtain ⟨row, count, hrow, -, rfl⟩ | ⟨count, -, -, rfl⟩ := placeMemory_cases hp
    · obtain ⟨hlt, -⟩ := List.getElem?_eq_some_iff.mp (hs.lookup hrow).1
      exact ⟨mem_set hlt new, rfl⟩
    · exact ⟨mem_append_right _ mem_cons_self, rfl⟩
  have hspared : placed.Spared s.evictionConfig new :=
    ⟨hmem.2, hmem.1, fun q hq => (h.quotas q hq).mono (hle _), h.all.mono (hle _)⟩
  exact (hspared.evictOnWrite h.unexpired).mem

end Store

end Zepto.Ai
