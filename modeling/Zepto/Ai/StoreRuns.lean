import Zepto.Ai.Snapshot
import Zepto.Lib.Machine

/-!
# Runs of the agent memory store

Each public operation of the store is an event, and a run is a list of them. Evictions are made of
three small steps: a row goes, cache entries go, a counter changes. A property that these keep is
kept by every eviction (`Evicts.evictOnWrite`), however many loops it takes.
-/

namespace Zepto.Ai

open Zepto.Lib

inductive StoreEvent where
  | putMemory (r : MemoryRecord) (clock now : Int64)
  | removeMemory (memoryId tenantId : Bytes)
  | search (q : Store.MemoryQuery) (now : Int64) (rows : List Nat)
  | storeCache (c : CacheEntry) (clock now : Int64)
  | removeCache (tenantId namespaceId prompt : Bytes)
  | lookupCache (l : CacheLookup) (clock : Int64)
  | setEvictionConfig (config : EvictionConfig) (now : Int64)
  | setAnnConfig (config : AnnConfig)
  | setIdConfig (config : IdConfig)
  | evictExpired (nowArg clock : Int64)
  | restoreEvictedEntries (evictions : List EvictionEvent)
  | loadFromDirectory (directory : Bytes) (files : SnapshotDir)
  | clear

inductive StoreAnswer where
  | done
  | result (r : StoreResult)
  | flag (b : Bool)
  | count (n : Nat)
  | found (r : CacheLookupResult)

def storeMachine : Machine Store StoreEvent StoreAnswer where
  step s
    | .putMemory r clock now => let a := s.putMemory r clock now; (.result a.1, a.2)
    | .removeMemory id tenant => let a := s.removeMemory id tenant; (.flag a.1, a.2)
    | .search q now rows => (.done, s.search q now rows)
    | .storeCache c clock now => let a := s.storeCache c clock now; (.result a.1, a.2)
    | .removeCache tenant ns prompt => let a := s.removeCache tenant ns prompt; (.flag a.1, a.2)
    | .lookupCache l clock => let a := s.lookupCache l clock; (.found a.1, a.2)
    | .setEvictionConfig config now => (.done, s.setEvictionConfig config now)
    | .setAnnConfig config => (.done, s.setAnnConfig config)
    | .setIdConfig config => (.done, { s with idConfig := config })
    | .evictExpired nowArg clock => let a := s.evictExpired nowArg clock; (.count a.1, a.2)
    | .restoreEvictedEntries evictions =>
      let a := s.restoreEvictedEntries evictions; (.count a.1, a.2)
    | .loadFromDirectory directory files =>
      let a := s.loadFromDirectory directory files; (.result a.1, a.2)
    | .clear => (.done, s.clear)

namespace Store

/-! ## Evictions -/

/-- A property that each small step of an eviction keeps. -/
structure Evicts (P : Store → Prop) : Prop where
  row : ∀ s row, P s → P (s.removeMemoryRow row)
  cache : ∀ (s : Store) l, l.Sublist s.cacheEntries → P s →
    P ({ s with cacheEntries := l } : Store).rebuildCacheIndex
  counts : ∀ (s : Store) m c, P s → P { s with expiringMemoryCount := m, expiringCacheCount := c }

namespace Evicts

variable {P : Store → Prop} {s : Store}

section

variable {fuel : Nat} {now : Int64} {matching : MemoryRecord → Bool} {out : EvictionEvent × Store}
  {most : Nat}

section

variable (h : Evicts P)

include h

theorem evictExpiredRows (now : Int64) {row : Nat} (hs : P s) :
    P (evictExpiredRows now fuel row s).2 := by
  induction fuel generalizing row s with
  | zero => exact hs
  | succ fuel ih =>
    unfold evictExpiredRows
    split
    · exact hs
    · split
      · exact ih (h.row s row hs)
      · exact ih hs

theorem evictExpiredCache (now : Int64) (hs : P s) : P (s.evictExpiredCache now).2 := by
  unfold Store.evictExpiredCache
  extract_lets gone
  split
  · exact hs
  · exact h.cache s _ List.filter_sublist hs

theorem evictExpiredLocked (now : Int64) (hs : P s) : P (s.evictExpiredLocked now).2 := by
  unfold Store.evictExpiredLocked
  extract_lets memories cache evictions
  have hm : P memories.2 := by
    show P (if 0 < s.expiringMemoryCount then _ else ([], s)).2
    split
    · exact h.evictExpiredRows now hs
    · exact hs
  have hc : P cache.2 := h.evictExpiredCache now hm
  split
  · exact hc
  · exact h.counts _ _ _ hc

theorem evictOneMemory (hout : evictOneMemory now matching s = some out) (hs : P s) : P out.2 := by
  obtain ⟨ri, -, rfl⟩ := Option.map_eq_some_iff.mp hout
  exact h.row _ _ (h.counts s _ s.expiringCacheCount hs)

theorem evictOneCache {matching : CacheEntry → Bool}
    (hout : evictOneCache now matching s = some out) (hs : P s) : P out.2 := by
  obtain ⟨ci, -, rfl⟩ := Option.map_eq_some_iff.mp hout
  exact h.cache { s with expiringCacheCount := forget s.expiringCacheCount ci.1.expiresAtNs } _
    (List.eraseIdx_sublist _ _) (h.counts s s.expiringMemoryCount _ hs)

end

theorem evictWhile {count : Store → Nat} {evictOne : Store → Option (EvictionEvent × Store)}
    (hone : ∀ s out, 0 < most ∧ most < count s → evictOne s = some out → P s → P out.2)
    (hs : P s) :
    P (evictWhile count most evictOne fuel s).2 := by
  induction fuel generalizing s with
  | zero => exact hs
  | succ fuel ih =>
    unfold evictWhile
    split
    next hover =>
      split
      · exact hs
      next event s' he =>
        exact ih (hone s _ hover he hs)
    · exact hs

section

variable (h : Evicts P) (hs : P s)

include h hs

theorem limitMemories : P (s.limitMemories now matching most).2 :=
  evictWhile (fun _ _ _ he hs => h.evictOneMemory he hs) hs

theorem limitCache {matching : CacheEntry → Bool} : P (s.limitCache now matching most).2 :=
  evictWhile (fun _ _ _ he hs => h.evictOneCache he hs) hs

theorem enforceEviction : P (s.enforceEviction now).2 := by
  have hq : ∀ (quotas : List TenantQuota) (acc : List EvictionEvent × Store), P acc.2 →
      P (quotas.foldl (enforceQuota now) acc).2 := by
    intro quotas
    induction quotas with
    | nil => exact fun _ h => h
    | cons q quotas ih => exact fun acc hacc => ih _ (h.limitCache (h.limitMemories hacc))
  exact h.limitCache (h.limitMemories (hq _ ([], s) hs))

theorem evictOnWrite : P (s.evictOnWrite now).2 := by
  refine h.enforceEviction ?_
  split
  · exact h.evictExpiredLocked now hs
  · exact hs

end

end

end Evicts

/-! ## What the operations can do -/

variable {s s' : Store} {P : Store → Prop} {r : MemoryRecord}

/-- `put_memory` fails, fails after it fixed the dimension, or places the record. -/
theorem putMemory_cases {clock now : Int64} (hs : P s)
    (hprepared : ∀ dim, validateEmbedding s.embeddingDim r.embedding = .ok dim →
      P (s.prepared r dim))
    (hplaced : ∀ dim placement placed, validateEmbedding s.embeddingDim r.embedding = .ok dim →
      (s.prepared r dim).placeMemory (estimated (s.completeMemory r clock)) =
        .ok (placement, placed) →
      P { (placed.evictOnWrite now).2 with
        ann := (placed.evictOnWrite now).2.settleAnn s.ann.clean s.memories.length
          (s.completeMemory r clock).memoryId placement }) :
    P (s.putMemory r clock now).2 := by
  unfold putMemory
  split
  · exact hs
  rename_i dim hdim
  extract_lets record
  split
  · exact hprepared dim hdim
  unfold putCompleted
  split
  · exact hprepared dim hdim
  next placement placed hp =>
    exact hplaced dim placement placed hdim hp

/-- `remove_memory` leaves the store alone or removes the row of the id. -/
theorem removeMemory_cases (s : Store) (memoryId tenantId : Bytes) :
    (s.removeMemory memoryId tenantId).2 = s ∨
      ∃ row count, s.memoryIndex.lookup memoryId = some row ∧
        (tenantId = [] ∨ (s.memories.getD row default).tenantId = tenantId) ∧
        (s.removeMemory memoryId tenantId).2 =
          ({ s with expiringMemoryCount := count } : Store).removeMemoryRow row := by
  unfold removeMemory
  split
  · exact .inl rfl
  rename_i row hrow
  extract_lets r
  split
  · exact .inl rfl
  rename_i htenant
  refine .inr ⟨row, _, hrow, ?_, rfl⟩
  by_cases ht : tenantId = []
  · exact .inl ht
  · right
    show r.tenantId = tenantId
    simpa [ht] using htenant

theorem Evicts.removeMemory {s : Store} {memoryId tenantId : Bytes}
    (h : Evicts P) (hs : P s) : P (s.removeMemory memoryId tenantId).2 := by
  obtain heq | ⟨row, count, -, -, heq⟩ := removeMemory_cases s memoryId tenantId
  · exact heq.symm ▸ hs
  · exact heq.symm ▸ h.row _ row (h.counts s count s.expiringCacheCount hs)

theorem placeMemory_cases {placement : Placement} (h : s.placeMemory r = .ok (placement, s')) :
    (∃ row count, let old := s.memories.getD row default
      s.memoryIndex.lookup r.memoryId = some row ∧
      placement = .updated row (old.tenantId = r.tenantId && old.namespaceId = r.namespaceId &&
        old.embedding.same r.embedding) (!old.embedding.isEmpty) old.annKey ∧
      s' = { s with
        memories := s.memories.set row r
        units := s.units.set s.embeddingDim (s.memories.set row r) row r.embedding
        expiringMemoryCount := count }) ∨
    (∃ count, s.memoryIndex.lookup r.memoryId = none ∧ placement = .appended s.memories.length ∧
      s' = { s with
        memories := s.memories ++ [r]
        memoryIndex := s.memoryIndex.insert r.memoryId s.memories.length
        units := s.units.append s.embeddingDim r.embedding
        expiringMemoryCount := count }) := by
  unfold placeMemory at h
  split at h
  next row hrow =>
    extract_lets existing memories at h
    split at h
    · cases h
    · obtain ⟨rfl, rfl⟩ := Prod.mk.inj (Except.ok.inj h)
      exact .inl ⟨row, _, hrow, rfl, rfl⟩
  next hrow =>
    obtain ⟨rfl, rfl⟩ := Prod.mk.inj (Except.ok.inj h)
    exact .inr ⟨_, hrow, rfl, rfl⟩

/-- A search may ask for a rebuild, and counts the accesses of the memories it answers with. -/
theorem search_frame {q : MemoryQuery} {now : Int64} {rows : List Nat}
    (h : ∀ ann memories, (ann = s.ann ∨ ann = s.ann.requestRebuild) →
      (∀ {β : Type} (f : MemoryRecord → β),
        (∀ r count time, f { r with accessCount := count, lastAccessedNs := time } = f r) →
        memories.map f = s.memories.map f) → P { s with ann, memories }) :
    P (s.search q now rows) := by
  unfold search
  split
  · exact h s.ann s.memories (.inl rfl) fun _ _ => rfl
  refine h _ _ ?_ fun f hf => ?_
  · split
    · exact .inr rfl
    · exact .inl rfl
  split
  · generalize s.memories = memories
    induction rows generalizing memories with
    | nil => rfl
    | cons row rows ih =>
      rw [List.foldl_cons, ih]
      exact map_modify_of_eq (fun r => hf r _ _) row memories
  · rfl

variable {c : CacheEntry}

/-- `store_cache` fails, fails after it fixed the dimension, or places the entry. -/
theorem storeCache_cases {clock now : Int64} (hs : P s)
    (hprepared : ∀ dim next, validateEmbedding s.embeddingDim c.embedding = .ok dim →
      P { s with embeddingDim := dim, nextCacheId := next })
    (hplaced : ∀ dim placed, validateEmbedding s.embeddingDim c.embedding = .ok dim →
      (s.preparedCache c dim).placeCache (s.completeCache c clock) = .ok placed →
      P (placed.evictOnWrite now).2) :
    P (s.storeCache c clock now).2 := by
  unfold storeCache
  split
  · exact hs
  rename_i dim hdim
  split
  · exact hprepared dim s.nextCacheId hdim
  split
  · exact hprepared dim s.nextCacheId hdim
  extract_lets entry
  split
  · exact hprepared dim _ hdim
  unfold storeCompleted
  split
  · exact hprepared dim _ hdim
  next placed hp =>
    exact hplaced dim placed hdim hp

theorem placeCache_cases (h : s.placeCache c = .ok s') :
    (∃ i count, s.cacheExactIndex.lookup c.exactKey = some i ∧
      s' = { s with cacheEntries := s.cacheEntries.set i c, expiringCacheCount := count }) ∨
    (∃ count, s.cacheExactIndex.lookup c.exactKey = none ∧ s' = { s with
        cacheEntries := s.cacheEntries ++ [c]
        cacheExactIndex := s.cacheExactIndex.insert c.exactKey s.cacheEntries.length
        expiringCacheCount := count }) := by
  unfold placeCache at h
  split at h
  next i hi =>
    extract_lets existing at h
    split at h
    · cases h
    · exact .inl ⟨i, _, hi, (Except.ok.inj h).symm⟩
  next hi =>
    exact .inr ⟨_, hi, (Except.ok.inj h).symm⟩

/-- `remove_cache` touches nothing but the cache. -/
theorem removeCache_frame {tenantId namespaceId prompt : Bytes}
    (h : ∀ expiringCacheCount cacheEntries cacheExactIndex,
      P { s with expiringCacheCount, cacheEntries, cacheExactIndex }) :
    P (s.removeCache tenantId namespaceId prompt).2 := by
  unfold removeCache
  split
  all_goals exact h _ _ _

/-- `lookup_cache` touches nothing but the entries of the cache. -/
theorem lookupCache_frame {l : CacheLookup} {clock : Int64}
    (h : ∀ cacheEntries, P { s with cacheEntries }) : P (s.lookupCache l clock).2 := by
  unfold lookupCache
  extract_lets now best
  split
  · exact h _
  split
  · split
    · exact h _
    · exact h _
  · exact h _

theorem restoreMemory_eq_some (h : s.restoreMemory r = some s') :
    s.memoryIndex.lookup r.memoryId = none ∧
      ∃ dim count, validateEmbedding s.embeddingDim r.embedding = .ok dim ∧
        s' = { s.adoptDimension dim with
          memories := s.memories ++ [r]
          memoryIndex := s.memoryIndex.insert r.memoryId s.memories.length
          units := (s.adoptDimension dim).units.append dim r.embedding
          expiringMemoryCount := count } := by
  unfold restoreMemory at h
  split at h
  · cases h
  rename_i hid
  rw [Bool.or_eq_true, not_or, Bool.not_eq_true, Bool.not_eq_true, Option.isSome_eq_false_iff,
    Option.isNone_iff_eq_none] at hid
  split at h
  · cases h
  next dim hdim =>
    exact ⟨hid.2, dim, _, hdim, (Option.some.inj h).symm⟩

theorem restoreCache_eq_some (h : s.restoreCache c = some s') :
    ∃ dim count, validateEmbedding s.embeddingDim c.embedding = .ok dim ∧
      s' = { s.adoptDimension dim with
        cacheEntries := s.cacheEntries ++ [c]
        cacheExactIndex := s.cacheExactIndex.insert c.exactKey s.cacheEntries.length
        expiringCacheCount := count } := by
  unfold restoreCache at h
  split at h
  · cases h
  split at h
  · cases h
  next dim hdim =>
    exact ⟨dim, _, hdim, (Option.some.inj h).symm⟩

/-- The loop of `restore_evicted_entries`: what restoring a memory and a cache entry keep. -/
theorem restore_induction {P : Restoring → Prop} (evictions : List EvictionEvent)
    (hm : ∀ e ∈ evictions, ∀ acc t, P acc → acc.store.restoreMemory (restoredMemory e) = some t →
      P { acc with store := t, restored := acc.restored + 1, memory := true })
    (hc : ∀ e ∈ evictions, e.target = .cache → ∀ acc t, P acc →
      acc.store.restoreCache (restoredCache e) = some t →
      P { acc with store := t, restored := acc.restored + 1, cache := true })
    (acc : Restoring) (hacc : P acc) : P (evictions.reverse.foldl restoreOne acc) := by
  have aux : ∀ (l : List EvictionEvent) (acc : Restoring), l ⊆ evictions → P acc →
      P (l.foldl restoreOne acc) := by
    intro l
    induction l with
    | nil => exact fun _ _ h => h
    | cons e l ih =>
      intro acc hl hacc
      rw [List.cons_subset] at hl
      refine ih _ hl.2 ?_
      unfold restoreOne
      split
      · split
        · exact hacc
        next t ht =>
          exact hm e hl.1 acc t hacc ht
      rename_i htarget
      split
      · exact hacc
      next t ht =>
        exact hc e hl.1 htarget acc t hacc ht
  exact aux _ acc (fun e he => List.mem_reverse.mp he) hacc

/-- `load_from_directory` leaves the store alone or installs what passed the checks. -/
theorem load_cases {directory : Bytes} {files : SnapshotDir} (hs : P s)
    (h : ∀ records vectors v index, files .records = some records →
      files .vectors = some vectors → readSaved records vectors = .ok v →
      indexMemories v.embeddingDim 0 v.memories ∅ = .ok index → P (s.install v index)) :
    P (s.loadFromDirectory directory files).2 := by
  unfold loadFromDirectory
  split
  · exact hs
  split
  · exact hs
  next records vectors hr hv =>
    split
    · exact hs
    rename_i t ht
    unfold loadFiles at ht
    cases hsaved : readSaved records vectors with
    | error e => rw [hsaved] at ht; cases ht
    | ok v =>
      rw [hsaved] at ht
      cases hindex : indexMemories v.embeddingDim 0 v.memories ∅ with
      | error e => simp only [bind, Except.bind, hindex] at ht; cases ht
      | ok index =>
        simp only [bind, Except.bind, hindex] at ht
        cases hcheck : checkCache v.embeddingDim v.cacheEntries with
        | error e => rw [hcheck] at ht; cases ht
        | ok u =>
          rw [hcheck] at ht
          exact Except.ok.inj ht ▸ h records vectors v index hr hv hsaved hindex
  · exact hs

end Store

end Zepto.Ai
