import Zepto.Ai.Store

/-!
# Snapshots of the agent memory store

`save_to_directory` writes the records and the vectors of a store to two files under temporary
names and then puts one after the other in place; `load_from_directory` reads them back. The records
name their vectors by an offset and a count into the other file. Numbers are written as the machine
keeps them, lowest byte first.
-/

namespace Zepto.Ai

open Zepto.Lib

structure Saved where
  embeddingDim : Nat := 0
  nextMemoryId : UInt64 := 1
  nextCacheId : UInt64 := 1
  memories : List MemoryRecord := []
  cacheEntries : List CacheEntry := []
  deriving DecidableEq

def Store.saved (s : Store) : Saved :=
  { embeddingDim := s.embeddingDim, nextMemoryId := s.nextMemoryId, nextCacheId := s.nextCacheId,
    memories := s.memories, cacheEntries := s.cacheEntries }

/-! ## Writing -/

def recordsMagic : Bytes := ascii "ZMAIM01" ++ [0#8]

def vectorsMagic : Bytes := ascii "ZMAIV01" ++ [0#8]

def snapshotVersion : Nat := 1

def writeString (s : Bytes) : Bytes := toBytes 8 s.length ++ s

def writeInt64 (v : Int64) : Bytes := toBytes 8 v.toBitVec.toNat

def writeFloats (e : Embedding) : Bytes := e.flatMap fun x => toBytes 4 x.toNat

/-- A memory whose embedding stands at an offset of the vectors. -/
def writeMemory (r : MemoryRecord) (offset : Nat) : Bytes :=
  writeString r.memoryId ++ (writeString r.tenantId ++ (writeString r.namespaceId ++
  (writeString r.userId ++ (writeString r.sessionId ++ (writeString r.agentId ++
  (writeString r.type ++ (writeString r.content ++ (writeString r.metadataJson ++
  (writeInt64 r.tokenCount ++ (toBytes 8 r.importance.toNat ++ (writeInt64 r.createdAtNs ++
  (writeInt64 r.lastAccessedNs ++ (writeInt64 r.expiresAtNs ++
  (toBytes 1 (if r.pinned then 1 else 0) ++ (toBytes 8 r.accessCount.toNat ++
  (toBytes 8 offset ++ toBytes 8 r.embedding.length))))))))))))))))

/-- A cache entry whose embedding stands at an offset of the vectors. -/
def writeCache (c : CacheEntry) (offset : Nat) : Bytes :=
  writeString c.cacheId ++ (writeString c.tenantId ++ (writeString c.namespaceId ++
  (writeString c.prompt ++ (writeString c.response ++ (writeString c.metadataJson ++
  (writeInt64 c.tokenCount ++ (writeInt64 c.createdAtNs ++ (writeInt64 c.lastAccessedNs ++
  (writeInt64 c.expiresAtNs ++ (toBytes 8 c.accessCount.toNat ++
  (toBytes 8 offset ++ toBytes 8 c.embedding.length)))))))))))

/-- The writes for a list of records, each the vector and then the record; `offset` is the place of
the first vector. -/
def writeEach {α : Type} (write : α → Nat → Bytes) (embedding : α → Embedding) :
    Nat → List α → List (Bytes × Bytes)
  | _, [] => []
  | offset, a :: l =>
    (writeFloats (embedding a), write a offset) ::
      writeEach write embedding (offset + (embedding a).length) l

namespace Saved

def floatCount {α : Type} (embedding : α → Embedding) (l : List α) : Nat :=
  (l.map fun a => (embedding a).length).sum

def recordsHeader (v : Saved) : Bytes :=
  recordsMagic ++ (toBytes 4 snapshotVersion ++ (toBytes 8 v.embeddingDim ++
  (toBytes 8 v.nextMemoryId.toNat ++ (toBytes 8 v.nextCacheId.toNat ++
  (toBytes 8 v.memories.length ++ toBytes 8 v.cacheEntries.length)))))

def vectorsHeader : Bytes := vectorsMagic ++ toBytes 4 snapshotVersion

/-- The vectors and the records, one after another; the offset goes on to the cache. -/
def writes (v : Saved) : List (Bytes × Bytes) :=
  writeEach writeMemory MemoryRecord.embedding 0 v.memories ++
    writeEach writeCache CacheEntry.embedding (floatCount MemoryRecord.embedding v.memories)
      v.cacheEntries

/-- What `records.bin` holds. -/
def recordsFile (v : Saved) : Bytes := v.recordsHeader ++ v.writes.flatMap Prod.snd

/-- What `vectors.bin` holds. -/
def vectorsFile (v : Saved) : Bytes := vectorsHeader ++ v.writes.flatMap Prod.fst

end Saved

inductive SnapshotFile where
  | recordsTmp
  | vectorsTmp
  | records
  | vectors
  deriving DecidableEq

abbrev SnapshotDir := SnapshotFile → Option Bytes

inductive SnapshotOp where
  | create (f : SnapshotFile)
  | append (f : SnapshotFile) (data : Bytes)
  | remove (f : SnapshotFile)
  | rename (f g : SnapshotFile)

namespace SnapshotOp

/-- The effect of a file operation; `create` truncates. -/
def apply (d : SnapshotDir) : SnapshotOp → SnapshotDir
  | create f => Function.update d f (some [])
  | append f data => Function.update d f ((d f).map (· ++ data))
  | remove f => Function.update d f none
  | rename f g =>
    match d f with
    | none => d
    | some data => Function.update (Function.update d f none) g (some data)

end SnapshotOp

def SnapshotDir.run (d : SnapshotDir) (ops : List SnapshotOp) : SnapshotDir :=
  ops.foldl SnapshotOp.apply d

namespace Saved

/-- The part of `save_to_directory` that fills the temporary files. -/
def fillOps (v : Saved) : List SnapshotOp :=
  [.create .recordsTmp, .create .vectorsTmp, .append .recordsTmp v.recordsHeader,
    .append .vectorsTmp vectorsHeader] ++
  v.writes.flatMap fun w => [.append .vectorsTmp w.1, .append .recordsTmp w.2]

def publishOps : List SnapshotOp :=
  [.remove .records, .rename .recordsTmp .records, .remove .vectors, .rename .vectorsTmp .vectors]

/-- The file operations of `save_to_directory`. -/
def saveOps (v : Saved) : List SnapshotOp := v.fillOps ++ publishOps

end Saved

/-! ## Reading -/

abbrev Reader := StateT Bytes Option

def readBytes (n : Nat) : Reader Bytes := fun data =>
  if n ≤ data.length then some (data.take n, data.drop n) else none

def readPod (n : Nat) : Reader Nat := do
  return ofBytes (← readBytes n)

def readInt64 : Reader Int64 := do
  return .ofBitVec (.ofNat 64 (← readPod 8))

def readUInt64 : Reader UInt64 := do
  return .ofNat (← readPod 8)

/-- The longest string `read_string` takes, `INT32_MAX`. -/
def longestString : Nat := 2147483647

def readString : Reader Bytes := do
  let size ← readPod 8
  guard (size ≤ longestString)
  readBytes size

def readMagic (magic : Bytes) : Reader Unit := do
  let actual ← readBytes 8
  guard (actual = magic)

def readVersion : Reader Unit := do
  let version ← readPod 4
  guard (version = snapshotVersion)

/-- `read_embedding`: a part of the vectors. -/
def sliceOf (arena : Embedding) (offset count : Nat) : Option Embedding :=
  if offset ≤ arena.length ∧ count ≤ arena.length - offset then
    some ((arena.drop offset).take count)
  else none

def readEmbedding (arena : Embedding) : Reader Embedding := do
  let offset ← readPod 8
  let count ← readPod 8
  (sliceOf arena offset count : Option Embedding)

def readMemory (arena : Embedding) : Reader MemoryRecord := do
  let memoryId ← readString
  let tenantId ← readString
  let namespaceId ← readString
  let userId ← readString
  let sessionId ← readString
  let agentId ← readString
  let type ← readString
  let content ← readString
  let metadataJson ← readString
  let tokenCount ← readInt64
  let importance ← readPod 8
  let createdAtNs ← readInt64
  let lastAccessedNs ← readInt64
  let expiresAtNs ← readInt64
  let pinned ← readPod 1
  let accessCount ← readUInt64
  let embedding ← readEmbedding arena
  return { memoryId, tenantId, namespaceId, userId, sessionId, agentId, type, content, metadataJson,
           embedding, tokenCount, importance := .ofNat 64 importance, createdAtNs,
           lastAccessedNs, expiresAtNs, pinned := pinned ≠ 0, accessCount }

def readCache (arena : Embedding) : Reader CacheEntry := do
  let cacheId ← readString
  let tenantId ← readString
  let namespaceId ← readString
  let prompt ← readString
  let response ← readString
  let metadataJson ← readString
  let tokenCount ← readInt64
  let createdAtNs ← readInt64
  let lastAccessedNs ← readInt64
  let expiresAtNs ← readInt64
  let accessCount ← readUInt64
  let embedding ← readEmbedding arena
  return { cacheId, tenantId, namespaceId, prompt, response, metadataJson, embedding, tokenCount,
           createdAtNs, lastAccessedNs, expiresAtNs, accessCount }

def readMany {α : Type} (reader : Reader α) : Nat → Reader (List α)
  | 0 => pure []
  | n + 1 => do
    let a ← reader
    return a :: (← readMany reader n)

/-- The numbers of the header of `records.bin`. -/
structure SnapshotHeader where
  embeddingDim : Nat
  nextMemoryId : UInt64
  nextCacheId : UInt64
  memoryCount : Nat
  cacheCount : Nat

def readHeader : Reader SnapshotHeader := do
  readMagic recordsMagic
  readVersion
  let embeddingDim ← readPod 8
  let nextMemoryId ← readUInt64
  let nextCacheId ← readUInt64
  let memoryCount ← readPod 8
  let cacheCount ← readPod 8
  return { embeddingDim, nextMemoryId, nextCacheId, memoryCount, cacheCount }

def readFloats : Bytes → Embedding
  | a :: b :: c :: d :: data => .ofNat 32 (ofBytes [a, b, c, d]) :: readFloats data
  | _ => []

/-- The payload of `vectors.bin`. -/
def readVectors (data : Bytes) : Except String Embedding :=
  match (do readMagic vectorsMagic; readVersion : Reader Unit) data with
  | none => .error "invalid agent memory snapshot header"
  | some (_, payload) =>
    if payload.length % 4 ≠ 0 then .error "vector snapshot payload is misaligned"
    else .ok (readFloats payload)

def expect {α : Type} (error : String) (a : Option α) : Except String α :=
  match a with
  | none => .error error
  | some a => .ok a

/-- The checks of the loaded memories: the index of their ids. -/
def indexMemories (dim : Nat) : Nat → List MemoryRecord → AList (fun _ : Bytes => Nat) →
    Except String (AList (fun _ : Bytes => Nat))
  | _, [], m => .ok m
  | i, r :: l, m =>
    if !r.embedding.isEmpty && r.embedding.length ≠ dim then
      .error "memory embedding dimension mismatch in snapshot"
    else if r.memoryId ∈ m then .error "duplicate memory_id in snapshot"
    else indexMemories dim (i + 1) l (m.insert r.memoryId i)

def checkCache (dim : Nat) (l : List CacheEntry) : Except String Unit :=
  if l.any fun c => !c.embedding.isEmpty && c.embedding.length ≠ dim then
    .error "cache embedding dimension mismatch in snapshot"
  else .ok ()

def readSaved (records vectors : Bytes) : Except String Saved := do
  let (header, data) ← expect "invalid agent memory snapshot header" (readHeader records)
  let arena ← readVectors vectors
  let (memories, data) ← expect "failed to read memory snapshot"
    (readMany (readMemory arena) header.memoryCount data)
  let (cacheEntries, _) ← expect "failed to read cache snapshot"
    (readMany (readCache arena) header.cacheCount data)
  return { embeddingDim := header.embeddingDim, nextMemoryId := header.nextMemoryId,
           nextCacheId := header.nextCacheId, memories, cacheEntries }

/-- The end of `load_from_directory`. -/
def Store.install (s : Store) (v : Saved) (memoryIndex : AList (fun _ : Bytes => Nat)) : Store :=
  { s with
    embeddingDim := v.embeddingDim
    nextMemoryId := v.nextMemoryId
    nextCacheId := v.nextCacheId
    memories := v.memories
    memoryIndex := memoryIndex
    cacheEntries := v.cacheEntries
    cacheExactIndex := indexBy CacheEntry.exactKey v.cacheEntries
    units := .rebuild v.embeddingDim v.memories
    ann := s.ann.markDirty }
    |>.rebuildExpiryCounts

def Store.loadFiles (s : Store) (records vectors : Bytes) : Except String Store := do
  let v ← readSaved records vectors
  let memoryIndex ← indexMemories v.embeddingDim 0 v.memories ∅
  checkCache v.embeddingDim v.cacheEntries
  return s.install v memoryIndex

def Store.loadFromDirectory (s : Store) (directory : Bytes) (d : SnapshotDir) :
    StoreResult × Store :=
  if directory.isEmpty then (failure "snapshot directory is required", s)
  else
    match d .records, d .vectors with
    | none, none => ({ ok := true, id := directory }, s)
    | some records, some vectors =>
      match s.loadFiles records vectors with
      | .error e => (failure e, s)
      | .ok s => ({ ok := true, id := directory }, s)
    | _, _ => (failure "partial agent memory snapshot", s)

end Zepto.Ai
