import Zepto.Ai.AnnIndex

/-!
# The agent memory store

The state of `AgentMemoryStore` and its operations (`agent_memory.cpp`), each as the code runs it
under the store's mutex. The clock is an argument wherever the code reads it. Left out are the
counters that only the statistics show, and the ranking of a search: the rows it answers with are
an argument of `search`.
-/

namespace Zepto.Ai

open Zepto.Lib

/-! ## The index and its rebuilds -/

inductive AnnMode where
  | off
  | auto
  | sparseProjection
  | hnsw
  | ivf
  deriving DecidableEq

structure AnnConfig where
  mode : AnnMode := .off
  minRecords : Nat := 50000
  deriving DecidableEq

/-- The fields that begin with `ann_`. -/
structure AnnState where
  config : AnnConfig := {}
  index : Option AnnIndex := some {}
  dirty : Bool := true
  generation : Nat := 0
  requested : Bool := false
  requestedGeneration : Nat := 0
  running : Bool := false
  runningGeneration : Nat := 0

namespace AnnState

/-- `ann_index_kind_locked_`. -/
def kind (a : AnnState) : AnnIndexKind :=
  match a.config.mode with
  | .hnsw => .hnsw
  | .ivf => .ivf
  | _ => .sparseProjection

/-- The index is in use and up to date, so that a write may maintain it. -/
def clean (a : AnnState) : Bool := a.config.mode ≠ .off && a.index.isSome && !a.dirty

/-- `request_ann_rebuild_locked_`. -/
def requestRebuild (a : AnnState) : AnnState :=
  if a.config.mode = .off then a
  else if !a.dirty && a.index.isSome then a
  else if a.config.mode = .hnsw && !hnswAnnAvailable then a
  else if a.running && a.runningGeneration = a.generation then a
  else if a.requested && a.requestedGeneration = a.generation then a
  else { a with requested := true, requestedGeneration := a.generation }

/-- `mark_ann_dirty_locked_`. -/
def markDirty (a : AnnState) : AnnState :=
  let a := { a with dirty := true, generation := a.generation + 1 }
  if a.running then a.requestRebuild else a

/-- Maintenance gives up when the index is missing or dirty. -/
def maintain (a : AnnState) (f : AnnIndex → Bool × AnnIndex) : Bool × AnnState :=
  match a.index with
  | none => (false, a)
  | some idx => if a.dirty then (false, a) else ((f idx).1, { a with index := some (f idx).2 })

/-- `try_add_ann_entry_locked_`, in a store with `count` memories. -/
def tryAdd (a : AnnState) (count row : Nat) (r : MemoryRecord) : Bool × AnnState :=
  a.maintain fun idx =>
    if count ≤ row then (false, idx)
    else if r.embedding.isEmpty then (true, idx)
    else idx.add r.annKey row r.embedding

/-- `try_remove_ann_entry_locked_`. -/
def tryRemove (a : AnnState) (count row : Nat) (r : MemoryRecord) : Bool × AnnState :=
  a.maintain fun idx =>
    if count ≤ row then (false, idx)
    else if r.embedding.isEmpty then (true, idx)
    else idx.remove r.annKey row

/-- `try_replace_ann_entry_locked_`. -/
def tryReplace (a : AnnState) (count : Nat) (oldKey : Bytes) (oldHadEmbedding : Bool) (row : Nat)
    (r : MemoryRecord) : Bool × AnnState :=
  a.maintain fun idx =>
    if count ≤ row then (false, idx)
    else
      let removed := if oldHadEmbedding then idx.remove oldKey row else (true, idx)
      if !removed.1 then removed
      else if r.embedding.isEmpty then (true, removed.2)
      else removed.2.add r.annKey row r.embedding

/-- `try_update_ann_row_id_locked_`. -/
def tryUpdateRowId (a : AnnState) (key : Bytes) (hasEmbedding : Bool) (oldRow newRow : Nat) :
    Bool × AnnState :=
  a.maintain fun idx =>
    if !hasEmbedding || oldRow = newRow then (true, idx) else idx.updateRowId key oldRow newRow

/-- The index is marked dirty when it could not be maintained. -/
def orDirty (result : Bool × AnnState) : AnnState :=
  if result.1 then result.2 else result.2.markDirty

/-- `remove_memory_row_locked_` on the index: the row goes, and the last row gets its number. -/
def removeRow (a : AnnState) (count row : Nat) (removed moved : MemoryRecord) : AnnState :=
  if a.clean then
    let first := a.tryRemove count row removed
    orDirty (if row ≠ count - 1 && first.1 then
      first.2.tryUpdateRowId moved.annKey (!moved.embedding.isEmpty) (count - 1) row
    else first)
  else a

end AnnState

/-! ## Unit embeddings -/

/-- `memory_has_embedding_` and `memory_unit_embeddings_`. -/
structure Units where
  present : List Bool := []
  values : List Single := []
  deriving DecidableEq

namespace Units

def blank (count dim : Nat) : Units :=
  { present := .replicate count false, values := .replicate (count * dim) 0#32 }

/-- `append_unit_embedding_locked_`. -/
def append (u : Units) (dim : Nat) (e : Embedding) : Units :=
  if dim = 0 then { u with present := u.present ++ [false] }
  else
    let unit := normalizeEmbedding e
    { present := u.present ++ [!unit.isEmpty]
      values := writeAt (u.values ++ List.replicate dim 0#32) u.values.length unit }

/-- One round of the loop of `rebuild_unit_embeddings_locked_`. -/
def fill (dim : Nat) (u : Units) (ri : MemoryRecord × Nat) : Units :=
  let unit := normalizeEmbedding ri.1.embedding
  if unit.isEmpty then u
  else { present := u.present.set ri.2 true, values := writeAt u.values (ri.2 * dim) unit }

/-- `rebuild_unit_embeddings_locked_`. -/
def rebuild (dim : Nat) (memories : List MemoryRecord) : Units :=
  if dim = 0 then { present := .replicate memories.length false, values := [] }
  else memories.zipIdx.foldl (fill dim) (blank memories.length dim)

/-- The arrays have the sizes that `count` memories need. -/
def sized (u : Units) (count dim : Nat) : Bool :=
  u.present.length = count && u.values.length = count * dim

/-- `set_unit_embedding_locked_`. -/
def set (u : Units) (dim : Nat) (memories : List MemoryRecord) (idx : Nat) (e : Embedding) :
    Units :=
  if memories.length ≤ idx || dim = 0 then u
  else if !u.sized memories.length dim then rebuild dim memories
  else
    let unit := normalizeEmbedding e
    { present := u.present.set idx (!unit.isEmpty)
      values := writeAt (writeAt u.values (idx * dim) (.replicate dim 0#32)) (idx * dim) unit }

/-- `remove_memory_row_locked_` on the arrays, when `left` are the memories left. -/
def removeRow (u : Units) (dim count row : Nat) (left : List MemoryRecord) : Units :=
  if u.present.length = count && (dim = 0 || u.values.length = count * dim) then
    { present := swapRemove u.present row
      values :=
        if dim = 0 then u.values
        else (if row ≠ count - 1 then
            writeAt u.values (row * dim) (rowAt dim u.values (count - 1))
          else u.values).take ((count - 1) * dim) }
  else rebuild dim left

end Units

/-! ## The state -/

structure Store where
  embeddingDim : Nat := 0
  nextMemoryId : UInt64 := 1
  nextCacheId : UInt64 := 1
  expiringMemoryCount : Nat := 0
  expiringCacheCount : Nat := 0
  idConfig : IdConfig := {}
  evictionConfig : EvictionConfig := {}
  ann : AnnState := {}
  units : Units := {}
  memories : List MemoryRecord := []
  memoryIndex : AList (fun _ : Bytes => Nat) := ∅
  cacheEntries : List CacheEntry := []
  cacheExactIndex : AList (fun _ : Bytes => Nat) := ∅

/-- The index of the keys of a list; of elements with one key the last counts. -/
def indexBy {α : Type} (key : α → Bytes) (l : List α) : AList (fun _ : Bytes => Nat) :=
  l.zipIdx.foldl (fun m ai => m.insert (key ai.1) ai.2) ∅

namespace Store

/-- `rebuild_cache_index_locked_`. -/
def rebuildCacheIndex (s : Store) : Store :=
  { s with cacheExactIndex := indexBy CacheEntry.exactKey s.cacheEntries }

/-- `rebuild_expiry_counts_locked_`. -/
def rebuildExpiryCounts (s : Store) : Store :=
  { s with
    expiringMemoryCount := s.memories.countP fun r => hasExpiry r.expiresAtNs
    expiringCacheCount := s.cacheEntries.countP fun c => hasExpiry c.expiresAtNs }

/-- `memory_similarity_locked_`. -/
def memorySimilarity (s : Store) (idx : Nat) (queryUnit : Embedding) : Float :=
  if queryUnit.isEmpty || s.units.present[idx]? ≠ some true || s.embeddingDim = 0 ||
      queryUnit.length ≠ s.embeddingDim || s.units.values.length < (idx + 1) * s.embeddingDim then
    doubleOfInt 0
  else dot queryUnit (rowAt s.embeddingDim s.units.values idx)

/-! ## Removal and eviction -/

/-- `remove_memory_row_locked_`: the last memory takes the place of the removed one. -/
def removeMemoryRow (s : Store) (row : Nat) : Store :=
  match s.memories[row]?, s.memories.getLast? with
  | some removed, some moved =>
    let count := s.memories.length
    let left := swapRemove s.memories row
    { s with
      memories := left
      memoryIndex :=
        (if row ≠ count - 1 then s.memoryIndex.insert moved.memoryId row
          else s.memoryIndex).erase removed.memoryId
      units := s.units.removeRow s.embeddingDim count row left
      ann := s.ann.removeRow count row removed moved }
  | _, _ => s

/-- A counter of expiring entries without one entry. -/
def forget (count : Nat) (expiresAtNs : Int64) : Nat :=
  if hasExpiry expiresAtNs then count - 1 else count

/-- The loop of `evict_expired_locked_` over the memories: a round passes or removes one. -/
def evictExpiredRows (now : Int64) : Nat → Nat → Store → List EvictionEvent × Store
  | 0, _, s => ([], s)
  | fuel + 1, row, s =>
    match s.memories[row]? with
    | none => ([], s)
    | some r =>
      if expired r.expiresAtNs now then
        let rest := evictExpiredRows now fuel row (s.removeMemoryRow row)
        (memoryEvictionEvent r :: rest.1, rest.2)
      else evictExpiredRows now fuel (row + 1) s

/-- The part of `evict_expired_locked_` about the cache. -/
def evictExpiredCache (s : Store) (now : Int64) : List EvictionEvent × Store :=
  let gone := if 0 < s.expiringCacheCount then
    s.cacheEntries.filter fun c => expired c.expiresAtNs now else []
  if gone.isEmpty then ([], s)
  else
    (gone.map cacheEvictionEvent,
      { s with cacheEntries := s.cacheEntries.filter fun c => !expired c.expiresAtNs now }
        |>.rebuildCacheIndex)

def evictExpiredLocked (s : Store) (now : Int64) : List EvictionEvent × Store :=
  let memories := if 0 < s.expiringMemoryCount then
    evictExpiredRows now s.memories.length 0 s else ([], s)
  let cache := memories.2.evictExpiredCache now
  let evictions := memories.1 ++ cache.1
  (evictions, if evictions.isEmpty then cache.2 else cache.2.rebuildExpiryCounts)

/-- One round of the search for the entry with the lowest score, and of those the oldest. -/
def weaker {α : Type} (eligible : α → Bool) (score : α → Float) (created : α → Int64)
    (best : Option (α × Nat)) (ai : α × Nat) : Option (α × Nat) :=
  if !eligible ai.1 then best
  else
    match best with
    | none => some ai
    | some b =>
      if score ai.1 < score b.1 || (score ai.1 == score b.1 && created ai.1 < created b.1) then
        some ai
      else best

/-- The candidate of the `evict_one_` functions. -/
def weakest {α : Type} (eligible : α → Bool) (score : α → Float) (created : α → Int64)
    (l : List α) : Option (α × Nat) :=
  l.zipIdx.foldl (weaker eligible score created) none

/-- `evict_one_memory_for_quota_locked_` and `evict_one_memory_for_capacity_locked_`, for the
memories that match. -/
def evictOneMemory (now : Int64) (matching : MemoryRecord → Bool) (s : Store) :
    Option (EvictionEvent × Store) :=
  (weakest (fun r => matching r && !(s.evictionConfig.protectPinned && r.pinned))
    (memoryRetentionScore · now) (·.createdAtNs) s.memories).map fun ri =>
      (memoryEvictionEvent ri.1,
        { s with expiringMemoryCount := forget s.expiringMemoryCount ri.1.expiresAtNs }
          |>.removeMemoryRow ri.2)

/-- `evict_one_cache_for_quota_locked_` and `evict_one_cache_for_capacity_locked_`. -/
def evictOneCache (now : Int64) (matching : CacheEntry → Bool) (s : Store) :
    Option (EvictionEvent × Store) :=
  (weakest matching (cacheRetentionScore · now) (·.createdAtNs) s.cacheEntries).map fun ci =>
    (cacheEvictionEvent ci.1,
      { s with
        expiringCacheCount := forget s.expiringCacheCount ci.1.expiresAtNs
        cacheEntries := s.cacheEntries.eraseIdx ci.2 }
        |>.rebuildCacheIndex)

/-- A loop of `enforce_eviction_locked_`: entries go while there are more than `most`; zero is no
limit. -/
def evictWhile (count : Store → Nat) (most : Nat)
    (evictOne : Store → Option (EvictionEvent × Store)) : Nat → Store → List EvictionEvent × Store
  | 0, s => ([], s)
  | fuel + 1, s =>
    if 0 < most ∧ most < count s then
      match evictOne s with
      | none => ([], s)
      | some (event, s) =>
        let rest := evictWhile count most evictOne fuel s
        (event :: rest.1, rest.2)
    else ([], s)

def memoryMatchesQuota (q : TenantQuota) (r : MemoryRecord) : Bool :=
  r.tenantId = q.tenantId && (q.namespaceId.isEmpty || r.namespaceId = q.namespaceId)

def cacheMatchesQuota (q : TenantQuota) (c : CacheEntry) : Bool :=
  c.tenantId = q.tenantId && (q.namespaceId.isEmpty || c.namespaceId = q.namespaceId)

def limitMemories (s : Store) (now : Int64) (matching : MemoryRecord → Bool) (most : Nat) :
    List EvictionEvent × Store :=
  evictWhile (fun s => s.memories.countP matching) most (evictOneMemory now matching)
    s.memories.length s

def limitCache (s : Store) (now : Int64) (matching : CacheEntry → Bool) (most : Nat) :
    List EvictionEvent × Store :=
  evictWhile (fun s => s.cacheEntries.countP matching) most (evictOneCache now matching)
    s.cacheEntries.length s

def enforceQuota (now : Int64) (acc : List EvictionEvent × Store) (q : TenantQuota) :
    List EvictionEvent × Store :=
  let memories := acc.2.limitMemories now (memoryMatchesQuota q) q.maxMemories
  let cache := memories.2.limitCache now (cacheMatchesQuota q) q.maxCacheEntries
  (acc.1 ++ memories.1 ++ cache.1, cache.2)

/-- `enforce_eviction_locked_`. -/
def enforceEviction (s : Store) (now : Int64) : List EvictionEvent × Store :=
  let config := s.evictionConfig
  let quotas := config.tenantQuotas.foldl (enforceQuota now) ([], s)
  let memories := quotas.2.limitMemories now (fun _ => true) config.maxMemories
  let cache := memories.2.limitCache now (fun _ => true) config.maxCacheEntries
  (quotas.1 ++ memories.1 ++ cache.1, cache.2)

def evictOnWrite (s : Store) (now : Int64) : List EvictionEvent × Store :=
  let expiry := if s.evictionConfig.evictExpiredOnWrite then s.evictExpiredLocked now else ([], s)
  let limits := expiry.2.enforceEviction now
  (expiry.1 ++ limits.1, limits.2)

/-! ## Memories -/

def failure (error : String) : StoreResult := { error := error }

/-- A dimension that an embedding fixes gives every memory an empty row. -/
def adoptDimension (s : Store) (dim : Nat) : Store :=
  { s with
    embeddingDim := dim
    units := if s.embeddingDim = 0 ∧ dim ≠ 0 ∧ s.memories ≠ [] then
      .blank s.memories.length dim else s.units }

/-- The fields of a record that `put_memory` fills in. -/
def completeMemory (s : Store) (r : MemoryRecord) (clock : Int64) : MemoryRecord :=
  let created := if r.createdAtNs = 0 then clock else r.createdAtNs
  { r with
    memoryId := if r.memoryId.isEmpty then s.idConfig.nextId (ascii "mem") s.nextMemoryId
      else r.memoryId
    namespaceId := orDefault r.namespaceId
    createdAtNs := created
    lastAccessedNs := if r.lastAccessedNs = 0 then created else r.lastAccessedNs }

/-- A counter of expiring entries when an entry is replaced. -/
def recount (count : Nat) (had has : Bool) : Nat :=
  if had = has then count else if has then count + 1 else count - 1

/-- What `put_memory` did to the rows. -/
inductive Placement where
  | appended (row : Nat)
  | updated (row : Nat) (preserves hadEmbedding : Bool) (oldKey : Bytes)

/-- The record goes to the row of its id, or to a new one. -/
def placeMemory (s : Store) (r : MemoryRecord) : Except String (Placement × Store) :=
  match s.memoryIndex.lookup r.memoryId with
  | some row =>
    let existing := s.memories.getD row default
    if !existing.tenantId.isEmpty && existing.tenantId ≠ r.tenantId then
      .error "memory_id belongs to a different tenant"
    else
      let memories := s.memories.set row r
      .ok (.updated row
          (existing.tenantId = r.tenantId && existing.namespaceId = r.namespaceId &&
            existing.embedding.same r.embedding)
          (!existing.embedding.isEmpty) existing.annKey,
        { s with
          memories := memories
          units := s.units.set s.embeddingDim memories row r.embedding
          expiringMemoryCount := recount s.expiringMemoryCount (hasExpiry existing.expiresAtNs)
            (hasExpiry r.expiresAtNs) })
  | none =>
    .ok (.appended s.memories.length,
      { s with
        memories := s.memories ++ [r]
        memoryIndex := s.memoryIndex.insert r.memoryId s.memories.length
        units := s.units.append s.embeddingDim r.embedding
        expiringMemoryCount := recount s.expiringMemoryCount false (hasExpiry r.expiresAtNs) })

/-- The end of `put_memory`: the index is maintained if clean and nothing was evicted. -/
def settleAnn (s : Store) (wasClean : Bool) (countBefore : Nat) (id : Bytes) (p : Placement) :
    AnnState :=
  let count := s.memories.length
  match p with
  | .appended row =>
    if wasClean && !s.ann.dirty && count = countBefore + 1 &&
        s.memoryIndex.lookup id = some row then
      .orDirty (s.ann.tryAdd count row (s.memories.getD row default))
    else s.ann.markDirty
  | .updated row preserves hadEmbedding oldKey =>
    let valid := count = countBefore && s.memoryIndex.lookup id = some row
    if valid && preserves then s.ann
    else if wasClean && !s.ann.dirty && valid then
      .orDirty (s.ann.tryReplace count oldKey hadEmbedding row (s.memories.getD row default))
    else s.ann.markDirty

/-- `put_memory`, once the record is complete. -/
def putCompleted (s : Store) (r : MemoryRecord) (now : Int64) : StoreResult × Store :=
  match s.placeMemory r with
  | .error e => (failure e, s)
  | .ok (placement, placed) =>
    let evicted := placed.evictOnWrite now
    ({ ok := true, id := r.memoryId, evictions := evicted.1 },
      { evicted.2 with
        ann := evicted.2.settleAnn s.ann.clean s.memories.length r.memoryId placement })

def estimated (r : MemoryRecord) : MemoryRecord :=
  { r with tokenCount := if r.tokenCount = 0 then estimateTokens r.content else r.tokenCount }

/-- The store in which the record is placed: dimension fixed, a new id used up. -/
def prepared (s : Store) (r : MemoryRecord) (dim : Nat) : Store :=
  { s.adoptDimension dim with
    nextMemoryId := if r.memoryId.isEmpty then s.nextMemoryId + 1 else s.nextMemoryId }

def putMemory (s : Store) (r : MemoryRecord) (clock now : Int64) : StoreResult × Store :=
  match validateEmbedding s.embeddingDim r.embedding with
  | .error e => (failure e, s)
  | .ok dim =>
    let record := s.completeMemory r clock
    if record.tokenCount < 0 then (failure "token_count must be non-negative", s.prepared r dim)
    else (s.prepared r dim).putCompleted (estimated record) now

def getMemory (s : Store) (memoryId tenantId : Bytes) : Option MemoryRecord :=
  (s.memoryIndex.lookup memoryId).bind fun row =>
    (s.memories[row]?).filter fun r => tenantId.isEmpty || r.tenantId = tenantId

def removeMemory (s : Store) (memoryId tenantId : Bytes) : Bool × Store :=
  match s.memoryIndex.lookup memoryId with
  | none => (false, s)
  | some row =>
    let r := s.memories.getD row default
    if !tenantId.isEmpty && r.tenantId ≠ tenantId then (false, s)
    else
      (true, { s with expiringMemoryCount := forget s.expiringMemoryCount r.expiresAtNs }
        |>.removeMemoryRow row)

/-- The fields of a `MemoryQuery` that decide whether the index is asked. -/
structure MemoryQuery where
  tenantId : Bytes := []
  namespaceId : Bytes := ascii "default"
  queryEmbedding : Embedding := []
  limit : Nat := 10
  forceScan : Bool := false
  updateAccess : Bool := true

/-- `should_use_ann_locked_`. -/
def shouldUseAnn (s : Store) (q : MemoryQuery) : Bool :=
  s.ann.config.mode ≠ .off && !q.forceScan && !q.queryEmbedding.isEmpty && !q.tenantId.isEmpty &&
    !q.namespaceId.isEmpty &&
    !(s.ann.config.mode = .auto && s.memories.length < s.ann.config.minRecords)

/-- What a search that answers with `rows` leaves behind. -/
def search (s : Store) (q : MemoryQuery) (now : Int64) (rows : List Nat) : Store :=
  if q.limit = 0 then s
  else
    { s with
      ann := if s.shouldUseAnn q && (s.ann.dirty || s.ann.index.isNone) then s.ann.requestRebuild
        else s.ann
      memories := if q.updateAccess then
        rows.foldl (fun l row => l.modify row fun r =>
          { r with accessCount := r.accessCount + 1, lastAccessedNs := now }) s.memories
        else s.memories }

/-! ## The cache -/

def getCache (s : Store) (tenantId namespaceId prompt : Bytes) : Option CacheEntry :=
  (s.cacheExactIndex.lookup (exactKey tenantId (orDefault namespaceId) prompt)).bind fun i =>
    s.cacheEntries[i]?

def cacheIdOf (s : Store) (c : CacheEntry) : Bytes :=
  if c.cacheId.isEmpty then s.idConfig.nextId (ascii "cache") s.nextCacheId else c.cacheId

/-- The fields of an entry that `store_cache` fills in. -/
def completeCache (s : Store) (c : CacheEntry) (clock : Int64) : CacheEntry :=
  let created := if c.createdAtNs = 0 then clock else c.createdAtNs
  { c with
    cacheId := s.cacheIdOf c
    namespaceId := orDefault c.namespaceId
    createdAtNs := created
    lastAccessedNs := if c.lastAccessedNs = 0 then created else c.lastAccessedNs }

/-- The entry takes the place of the one with its key, or is appended. -/
def placeCache (s : Store) (c : CacheEntry) : Except String Store :=
  match s.cacheExactIndex.lookup c.exactKey with
  | some i =>
    let existing := s.cacheEntries.getD i default
    if !existing.tenantId.isEmpty && !c.tenantId.isEmpty && existing.tenantId ≠ c.tenantId then
      .error "cache prompt belongs to a different tenant"
    else
      .ok { s with
        cacheEntries := s.cacheEntries.set i c
        expiringCacheCount := recount s.expiringCacheCount (hasExpiry existing.expiresAtNs)
          (hasExpiry c.expiresAtNs) }
  | none =>
    .ok { s with
      cacheEntries := s.cacheEntries ++ [c]
      cacheExactIndex := s.cacheExactIndex.insert c.exactKey s.cacheEntries.length
      expiringCacheCount := recount s.expiringCacheCount false (hasExpiry c.expiresAtNs) }

/-- The store in which the entry is placed. Unlike in `put_memory`, the unit embeddings are not
resized. -/
def preparedCache (s : Store) (c : CacheEntry) (dim : Nat) : Store :=
  { s with
    embeddingDim := dim
    nextCacheId := if c.cacheId.isEmpty then s.nextCacheId + 1 else s.nextCacheId }

/-- `store_cache`, once the entry is complete. -/
def storeCompleted (s : Store) (c : CacheEntry) (now : Int64) : StoreResult × Store :=
  match s.placeCache c with
  | .error e => (failure e, s)
  | .ok placed =>
    let evicted := placed.evictOnWrite now
    ({ ok := true, id := c.cacheId, evictions := evicted.1 }, evicted.2)

def storeCache (s : Store) (c : CacheEntry) (clock now : Int64) : StoreResult × Store :=
  match validateEmbedding s.embeddingDim c.embedding with
  | .error e => (failure e, s)
  | .ok dim =>
    if c.prompt.isEmpty then (failure "prompt is required", { s with embeddingDim := dim })
    else if c.response.isEmpty then
      (failure "response is required", { s with embeddingDim := dim })
    else
      let entry := s.completeCache c clock
      if entry.tokenCount < 0 then
        (failure "token_count must be non-negative", s.preparedCache c dim)
      else (s.preparedCache c dim).storeCompleted entry now

def removeCache (s : Store) (tenantId namespaceId prompt : Bytes) : Bool × Store :=
  match s.cacheExactIndex.lookup (exactKey tenantId (orDefault namespaceId) prompt) with
  | none => (false, s)
  | some i =>
    let c := s.cacheEntries.getD i default
    (true, { s with
      expiringCacheCount := forget s.expiringCacheCount c.expiresAtNs
      cacheEntries := s.cacheEntries.eraseIdx i }
      |>.rebuildCacheIndex)

def touched (now : Int64) (c : CacheEntry) : CacheEntry :=
  { c with accessCount := c.accessCount + 1, lastAccessedNs := now }

def inScope (l : CacheLookup) (now : Int64) (c : CacheEntry) : Bool :=
  c.tenantId = l.tenantId && c.namespaceId = orDefault l.namespaceId &&
    !expired c.expiresAtNs now

def better (l : CacheLookup) (now : Int64) (best : CacheLookupResult) (c : CacheEntry) :
    CacheLookupResult :=
  if !inScope l now c then best
  else
    let sim := cosineSimilarity l.embedding c.embedding
    if l.semanticThreshold ≤ sim && (!best.hit || best.score < sim) then
      { hit := true, exact := false, score := sim, entry := c }
    else best

/-- The entry a lookup finds under its key, unless it has expired. -/
def exactHit (s : Store) (l : CacheLookup) (now : Int64) : Option (Nat × CacheEntry) :=
  (s.cacheExactIndex.lookup (exactKey l.tenantId (orDefault l.namespaceId) l.prompt)).bind
    fun i => ((s.cacheEntries[i]?).filter fun c => !expired c.expiresAtNs now).map fun c => (i, c)

def lookupCache (s : Store) (l : CacheLookup) (clock : Int64) : CacheLookupResult × Store :=
  let now := if l.nowNs = 0 then clock else l.nowNs
  match s.exactHit l now with
  | some (i, c) =>
    ({ hit := true, exact := true, score := doubleOfInt 1, entry := touched now c },
      { s with cacheEntries := s.cacheEntries.set i (touched now c) })
  | none =>
    let best := s.cacheEntries.foldl (better l now) {}
    if best.hit then
      -- The entry is looked up again by its id, which other entries may share.
      match s.cacheEntries.findIdx? fun c => c.cacheId = best.entry.cacheId with
      | some i =>
        let c := s.cacheEntries.getD i default
        ({ best with entry := touched now c },
          { s with cacheEntries := s.cacheEntries.set i (touched now c) })
      | none => (best, s)
    else (best, s)

/-! ## Configuration, restoring and clearing -/

def setEvictionConfig (s : Store) (config : EvictionConfig) (now : Int64) : Store :=
  let quotas := config.tenantQuotas.filter fun q =>
    !(q.tenantId.isEmpty || (q.maxMemories = 0 && q.maxCacheEntries = 0))
  (({ s with evictionConfig := { config with tenantQuotas := quotas } } : Store).evictOnWrite now).2

def setAnnConfig (s : Store) (config : AnnConfig) : Store :=
  let ann := { s.ann with config := config }
  { s with ann := { ann with index := makeAnnIndex ann.kind }.markDirty }

def evictExpired (s : Store) (nowArg clock : Int64) : Nat × Store :=
  let evicted := s.evictExpiredLocked (if nowArg = 0 then clock else nowArg)
  (evicted.1.length, evicted.2)

def restoredMemory (e : EvictionEvent) : MemoryRecord :=
  { e.memory with
    memoryId := if e.memory.memoryId.isEmpty then e.memoryId else e.memory.memoryId
    namespaceId := orDefault e.memory.namespaceId }

def restoredCache (e : EvictionEvent) : CacheEntry :=
  { e.cache with
    prompt := if e.cache.prompt.isEmpty then e.prompt else e.cache.prompt
    tenantId := if e.cache.tenantId.isEmpty then e.tenantId else e.cache.tenantId
    namespaceId := if e.cache.namespaceId.isEmpty then orDefault e.namespaceId
      else e.cache.namespaceId }

/-- A memory is restored unless its id is taken or its embedding does not fit. -/
def restoreMemory (s : Store) (r : MemoryRecord) : Option Store :=
  if r.memoryId.isEmpty || (s.memoryIndex.lookup r.memoryId).isSome then none
  else
    match validateEmbedding s.embeddingDim r.embedding with
    | .error _ => none
    | .ok dim =>
      let s := s.adoptDimension dim
      some { s with
        memories := s.memories ++ [r]
        memoryIndex := s.memoryIndex.insert r.memoryId s.memories.length
        units := s.units.append s.embeddingDim r.embedding
        expiringMemoryCount := recount s.expiringMemoryCount false (hasExpiry r.expiresAtNs) }

/-- A cache entry is restored unless its key is taken or its embedding does not fit. -/
def restoreCache (s : Store) (c : CacheEntry) : Option Store :=
  if c.prompt.isEmpty || (s.cacheExactIndex.lookup c.exactKey).isSome then none
  else
    match validateEmbedding s.embeddingDim c.embedding with
    | .error _ => none
    | .ok dim =>
      let s := s.adoptDimension dim
      some { s with
        cacheEntries := s.cacheEntries ++ [c]
        cacheExactIndex := s.cacheExactIndex.insert c.exactKey s.cacheEntries.length
        expiringCacheCount := recount s.expiringCacheCount false (hasExpiry c.expiresAtNs) }

/-- The state of the loop of `restore_evicted_entries`. -/
structure Restoring where
  store : Store
  restored : Nat := 0
  memory : Bool := false
  cache : Bool := false

def restoreOne (acc : Restoring) (e : EvictionEvent) : Restoring :=
  match e.target with
  | .memory =>
    match acc.store.restoreMemory (restoredMemory e) with
    | none => acc
    | some s => { acc with store := s, restored := acc.restored + 1, memory := true }
  | .cache =>
    match acc.store.restoreCache (restoredCache e) with
    | none => acc
    | some s => { acc with store := s, restored := acc.restored + 1, cache := true }

/-- The end of `restore_evicted_entries`. -/
def finishRestore (acc : Restoring) : Store :=
  { acc.store with
    ann := if acc.memory then acc.store.ann.markDirty else acc.store.ann
    cacheExactIndex := if acc.cache then indexBy CacheEntry.exactKey acc.store.cacheEntries
      else acc.store.cacheExactIndex }

/-- `restore_evicted_entries`: the last eviction is undone first. -/
def restoreEvictedEntries (s : Store) (evictions : List EvictionEvent) : Nat × Store :=
  let done := evictions.reverse.foldl restoreOne { store := s }
  (done.restored, finishRestore done)

/-- `clear`. A rebuild that is running keeps running. -/
def clear (s : Store) : Store :=
  { ann :=
      { generation := s.ann.generation + 1
        running := s.ann.running
        runningGeneration := s.ann.runningGeneration } }

end Store

end Zepto.Ai
