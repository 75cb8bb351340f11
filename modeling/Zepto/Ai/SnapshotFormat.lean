import Zepto.Ai.Snapshot

/-!
# What a snapshot reads back

The records of a snapshot are read with the vectors of any file: each gets the slice at the place
its own embedding had (`readSaved_written`). With the vectors that were written along with the
records, these are the embeddings themselves (`graft_of_floats`).
-/

namespace Zepto.Ai

open List Zepto.Lib

/-! ## Readers -/

section Readers

variable {α β : Type} {data rest : Bytes}

theorem read_bind (x : Reader α) (f : α → Reader β) (data : Bytes) :
    (x >>= f) data = (x data).bind fun p => f p.1 p.2 := rfl

theorem read_guard (p : Prop) [Decidable p] (data : Bytes) :
    (guard p : Reader Unit) data = if p then some ((), data) else none := by
  unfold guard
  split
  all_goals rfl

theorem read_step {x : Reader α} {a : α} (f : α → Reader β) (h : x data = some (a, rest)) :
    (x >>= f) data = f a rest := by
  rw [read_bind, h, Option.bind_some]

theorem read_step_if {x : Reader α} {a : α} {p : Prop} [Decidable p] (f : α → Reader β)
    (h : x data = if p then some (a, rest) else none) :
    (x >>= f) data = if p then f a rest else none := by
  rw [read_bind, h, apply_ite (Option.bind · _)]
  rfl

theorem readBytes_append {n : Nat} {a : Bytes} (h : a.length = n) (rest : Bytes) :
    readBytes n (a ++ rest) = some (a, rest) := by
  unfold readBytes
  rw [if_pos (by rw [length_append]; omega), take_left' h, drop_left' h]

theorem readPod_toBytes {n v : Nat} (h : v < 256 ^ n) (f : Nat → Reader β) (rest : Bytes) :
    (readPod n >>= f) (toBytes n v ++ rest) = f v rest := by
  refine read_step f ?_
  unfold readPod
  rw [read_step _ (readBytes_append (length_toBytes n v) rest), ofBytes_toBytes h]
  rfl

theorem readInt64_write (v : Int64) (f : Int64 → Reader β) (rest : Bytes) :
    (readInt64 >>= f) (writeInt64 v ++ rest) = f v rest := by
  refine read_step f ?_
  unfold readInt64 writeInt64
  rw [readPod_toBytes v.toBitVec.isLt, BitVec.ofNat_toNat]
  rfl

theorem readUInt64_toBytes (v : UInt64) (f : UInt64 → Reader β) (rest : Bytes) :
    (readUInt64 >>= f) (toBytes 8 v.toNat ++ rest) = f v rest := by
  refine read_step f ?_
  unfold readUInt64
  rw [readPod_toBytes v.toNat_lt, UInt64.ofNat_toNat]
  rfl

theorem readString_write {s : Bytes} (h : s.length < 2 ^ 64) (f : Bytes → Reader β)
    (rest : Bytes) : (readString >>= f) (writeString s ++ rest) =
      if s.length ≤ longestString then f s rest else none := by
  refine read_step_if f ?_
  unfold readString writeString
  rw [append_assoc, readPod_toBytes h, read_step_if _ (read_guard _ _)]
  exact if_congr .rfl (readBytes_append rfl rest) rfl

theorem readEmbedding_toBytes {offset count : Nat} (ho : offset < 2 ^ 64) (hc : count < 2 ^ 64)
    (arena : Embedding) (rest : Bytes) :
    readEmbedding arena (toBytes 8 offset ++ (toBytes 8 count ++ rest)) =
      (sliceOf arena offset count).map (·, rest) := by
  unfold readEmbedding
  rw [readPod_toBytes ho, readPod_toBytes hc]
  cases sliceOf arena offset count <;> rfl

end Readers

/-! ## Kinds of records -/

/-- What the two kinds of records share: strings, numbers, and an embedding in the other file. A
record that was written is read with the slice at its offset. -/
structure RecordKind (α : Type) where
  strings : α → List Bytes
  embedding : α → Embedding
  withEmbedding : Embedding → α → α
  write : α → Nat → Bytes
  reader : Embedding → Reader α
  embedding_with : ∀ e a, embedding (withEmbedding e a) = e
  with_embedding : ∀ a, withEmbedding (embedding a) a = a
  write_with : ∀ e a offset, e.length = (embedding a).length →
    write (withEmbedding e a) offset = write a offset
  reader_write : ∀ arena a offset rest, (∀ s ∈ strings a, s.length < 2 ^ 64) → offset < 2 ^ 64 →
    (embedding a).length < 2 ^ 64 →
    reader arena (write a offset ++ rest) =
      if ∀ s ∈ strings a, s.length ≤ longestString then
        (sliceOf arena offset (embedding a).length).map fun e => (withEmbedding e a, rest)
      else none

def MemoryRecord.strings (r : MemoryRecord) : List Bytes :=
  [r.memoryId, r.tenantId, r.namespaceId, r.userId, r.sessionId, r.agentId, r.type, r.content,
    r.metadataJson]

def CacheEntry.strings (c : CacheEntry) : List Bytes :=
  [c.cacheId, c.tenantId, c.namespaceId, c.prompt, c.response, c.metadataJson]

theorem readMemory_write (arena : Embedding) (r : MemoryRecord) (offset : Nat) (rest : Bytes)
    (hs : ∀ s ∈ r.strings, s.length < 2 ^ 64) (ho : offset < 2 ^ 64)
    (he : r.embedding.length < 2 ^ 64) :
    readMemory arena (writeMemory r offset ++ rest) =
      if ∀ s ∈ r.strings, s.length ≤ longestString then
        (sliceOf arena offset r.embedding.length).map fun e => ({ r with embedding := e }, rest)
      else none := by
  simp only [MemoryRecord.strings, forall_mem_cons, not_mem_nil, false_implies,
    implies_true, and_true] at hs ⊢
  obtain ⟨h1, h2, h3, h4, h5, h6, h7, h8, h9⟩ := hs
  have hpin : (if r.pinned then 1 else 0) < 256 ^ 1 := by split <;> omega
  have hback : decide ((if r.pinned then 1 else 0) ≠ 0) = r.pinned := by cases r.pinned <;> rfl
  unfold readMemory writeMemory
  simp only [append_assoc]
  rw [readString_write h1, readString_write h2, readString_write h3, readString_write h4,
    readString_write h5, readString_write h6, readString_write h7, readString_write h8,
    readString_write h9, readInt64_write, readPod_toBytes r.importance.isLt, readInt64_write,
    readInt64_write, readInt64_write, readPod_toBytes hpin, readUInt64_toBytes, read_bind,
    readEmbedding_toBytes ho he, BitVec.ofNat_toNat, hback]
  simp only [ite_and]
  cases sliceOf arena offset r.embedding.length <;> rfl

theorem readCache_write (arena : Embedding) (c : CacheEntry) (offset : Nat) (rest : Bytes)
    (hs : ∀ s ∈ c.strings, s.length < 2 ^ 64) (ho : offset < 2 ^ 64)
    (he : c.embedding.length < 2 ^ 64) :
    readCache arena (writeCache c offset ++ rest) =
      if ∀ s ∈ c.strings, s.length ≤ longestString then
        (sliceOf arena offset c.embedding.length).map fun e => ({ c with embedding := e }, rest)
      else none := by
  simp only [CacheEntry.strings, forall_mem_cons, not_mem_nil, false_implies,
    implies_true, and_true] at hs ⊢
  obtain ⟨h1, h2, h3, h4, h5, h6⟩ := hs
  unfold readCache writeCache
  simp only [append_assoc]
  rw [readString_write h1, readString_write h2, readString_write h3, readString_write h4,
    readString_write h5, readString_write h6, readInt64_write, readInt64_write, readInt64_write,
    readInt64_write, readUInt64_toBytes, read_bind, readEmbedding_toBytes ho he]
  simp only [ite_and]
  cases sliceOf arena offset c.embedding.length <;> rfl

def memoryKind : RecordKind MemoryRecord where
  strings := MemoryRecord.strings
  embedding := MemoryRecord.embedding
  withEmbedding e r := { r with embedding := e }
  write := writeMemory
  reader := readMemory
  embedding_with _ _ := rfl
  with_embedding _ := rfl
  write_with e r offset h := by simp only [writeMemory, h]
  reader_write := readMemory_write

def cacheKind : RecordKind CacheEntry where
  strings := CacheEntry.strings
  embedding := CacheEntry.embedding
  withEmbedding e c := { c with embedding := e }
  write := writeCache
  reader := readCache
  embedding_with _ _ := rfl
  with_embedding _ := rfl
  write_with e c offset h := by simp only [writeCache, h]
  reader_write := readCache_write

/-! ## Lists of records -/

theorem sliceOf_eq (arena : Embedding) (offset count : Nat) : sliceOf arena offset count =
    if offset + count ≤ arena.length then some ((arena.drop offset).take count) else none := by
  unfold sliceOf
  by_cases h : offset + count ≤ arena.length
  · rw [if_pos h, if_pos (by omega)]
  · rw [if_neg h, if_neg (by omega)]

namespace RecordKind

variable {α : Type} (k : RecordKind α)

def count (l : List α) : Nat := Saved.floatCount k.embedding l

theorem count_cons (a : α) (l : List α) :
    k.count (a :: l) = (k.embedding a).length + k.count l := by
  simp [count, Saved.floatCount]

def floats (l : List α) : Embedding := l.flatMap k.embedding

theorem length_floats (l : List α) : (k.floats l).length = k.count l := length_flatMap

/-- The records with the embeddings an arena has at their places. -/
def graft (arena : Embedding) : Nat → List α → List α
  | _, [] => []
  | offset, a :: l =>
    k.withEmbedding ((arena.drop offset).take (k.embedding a).length) a ::
      graft arena (offset + (k.embedding a).length) l

def ShortStrings (l : List α) : Prop := ∀ a ∈ l, ∀ s ∈ k.strings a, s.length ≤ longestString

instance (l : List α) : Decidable (k.ShortStrings l) := inferInstanceAs (Decidable (∀ _ ∈ _, _))

structure Sized (offset : Nat) (l : List α) : Prop where
  strings : ∀ a ∈ l, ∀ s ∈ k.strings a, s.length < 2 ^ 64
  count : offset + k.count l < 2 ^ 64

variable {k}

theorem Sized.tail {offset : Nat} {a : α} {l : List α} (h : k.Sized offset (a :: l)) :
    k.Sized (offset + (k.embedding a).length) l := by
  refine ⟨fun b hb => h.strings b (mem_cons_of_mem a hb), ?_⟩
  have := h.count
  rw [count_cons] at this
  omega

/-- The records that were written are read with the slices of any arena. -/
theorem readMany_writeEach (arena : Embedding) {l : List α} {offset : Nat}
    (h : k.Sized offset l) (rest : Bytes) :
    readMany (k.reader arena) l.length
        ((writeEach k.write k.embedding offset l).flatMap Prod.snd ++ rest) =
      if k.ShortStrings l ∧ (l = [] ∨ offset + k.count l ≤ arena.length) then
        some (k.graft arena offset l, rest)
      else none := by
  induction l generalizing offset with
  | nil => exact (if_pos ⟨nofun, .inl rfl⟩).symm
  | cons a l ih =>
    have hsize := h.count
    rw [count_cons] at hsize
    have hread := k.reader_write arena a offset
      ((writeEach k.write k.embedding (offset + (k.embedding a).length) l).flatMap Prod.snd ++ rest)
      (h.strings a mem_cons_self) (by omega) (by omega)
    have hshort : k.ShortStrings (a :: l) ↔
        (∀ s ∈ k.strings a, s.length ≤ longestString) ∧ k.ShortStrings l := forall_mem_cons
    simp only [writeEach, flatMap_cons, append_assoc, length_cons, readMany]
    rw [read_bind, hread, sliceOf_eq, count_cons]
    by_cases hs : ∀ s ∈ k.strings a, s.length ≤ longestString
    · rw [if_pos hs]
      by_cases hfit : offset + (k.embedding a).length ≤ arena.length
      · rw [if_pos hfit, Option.map_some, Option.bind_some]
        rw [read_step_if _ (ih h.tail)]
        refine if_congr ?_ rfl rfl
        rw [hshort, and_iff_right hs, ← add_assoc]
        refine and_congr_right fun _ => ⟨?_, fun hle => .inr (hle.resolve_left nofun)⟩
        rintro (rfl | hle)
        · exact .inr hfit
        · exact .inr hle
      · rw [if_neg hfit, if_neg]
        · rfl
        · rintro ⟨-, hnil | hle⟩
          · cases hnil
          · omega
    · rw [if_neg hs, if_neg fun hc => hs (hshort.mp hc.1).1]
      rfl

section Graft

variable {arena : Embedding} {l : List α} {offset : Nat}

theorem length_graft : (k.graft arena offset l).length = l.length := by
  induction l generalizing offset with
  | nil => rfl
  | cons a l ih => rw [graft, length_cons, length_cons, ih]

theorem map_graft {β : Type} (f : α → β) (hf : ∀ e a, f (k.withEmbedding e a) = f a) :
    (k.graft arena offset l).map f = l.map f := by
  induction l generalizing offset with
  | nil => rfl
  | cons a l ih => rw [graft, map_cons, map_cons, ih, hf]

theorem length_slice {count : Nat} (h : offset + count ≤ arena.length) :
    ((arena.drop offset).take count).length = count := by
  rw [length_take, length_drop]
  omega

theorem map_length_graft (h : offset + k.count l ≤ arena.length) :
    (k.graft arena offset l).map (fun a => (k.embedding a).length) =
      l.map fun a => (k.embedding a).length := by
  induction l generalizing offset with
  | nil => rfl
  | cons a l ih =>
    rw [count_cons] at h
    rw [graft, map_cons, map_cons, ih (by omega), k.embedding_with, length_slice (by omega)]

theorem floats_graft (h : offset + k.count l ≤ arena.length) :
    k.floats (k.graft arena offset l) = (arena.drop offset).take (k.count l) := by
  induction l generalizing offset with
  | nil => rfl
  | cons a l ih =>
    rw [count_cons] at h
    have hrest : k.floats (k.graft arena (offset + (k.embedding a).length) l) = _ := ih (by omega)
    rw [count_cons, take_add, drop_drop, ← hrest]
    show k.embedding (k.withEmbedding _ a) ++ k.floats _ = _
    rw [k.embedding_with]

/-- Records stay as they are when the arena has their floats in place. -/
theorem graft_of_floats (h : (arena.drop offset).take (k.count l) = k.floats l) :
    k.graft arena offset l = l := by
  induction l generalizing offset with
  | nil => rfl
  | cons a l ih =>
    have hfloats : k.floats (a :: l) = k.embedding a ++ k.floats l := rfl
    rw [count_cons, take_add, drop_drop, hfloats] at h
    have hlen := congrArg length h
    simp only [length_append, length_take, length_drop] at hlen
    obtain ⟨hhead, htail⟩ := append_inj h (by
      rw [length_take, length_drop]
      omega)
    rw [graft, hhead, ih htail, k.with_embedding]

theorem writeEach_graft (h : offset + k.count l ≤ arena.length) :
    (writeEach k.write k.embedding offset (k.graft arena offset l)).map Prod.snd =
      (writeEach k.write k.embedding offset l).map Prod.snd := by
  induction l generalizing offset with
  | nil => rfl
  | cons a l ih =>
    rw [count_cons] at h
    have hlen : ((arena.drop offset).take (k.embedding a).length).length =
        (k.embedding a).length := length_slice (by omega)
    simp only [graft, writeEach, map_cons, k.embedding_with, hlen, k.write_with _ a offset hlen]
    rw [ih (by omega)]

end Graft

theorem writeEach_fst (offset : Nat) (l : List α) :
    (writeEach k.write k.embedding offset l).flatMap Prod.fst = writeFloats (k.floats l) := by
  induction l generalizing offset with
  | nil => rfl
  | cons a l ih =>
    rw [writeEach, flatMap_cons, ih]
    exact flatMap_append.symm

end RecordKind

/-! ## The files -/

theorem readMagic_append {magic : Bytes} (h : magic.length = 8) (rest : Bytes) :
    readMagic magic (magic ++ rest) = some ((), rest) := by
  unfold readMagic
  rw [read_step _ (readBytes_append h rest), read_guard, if_pos rfl]

theorem readVersion_append (rest : Bytes) :
    readVersion (toBytes 4 snapshotVersion ++ rest) = some ((), rest) := by
  unfold readVersion
  rw [readPod_toBytes (by decide), read_guard, if_pos rfl]

theorem length_writeFloats (e : Embedding) : (writeFloats e).length = 4 * e.length := by
  induction e with
  | nil => rfl
  | cons x e ih =>
    rw [writeFloats, flatMap_cons, length_append, length_cons]
    show 4 + (writeFloats e).length = _
    omega

theorem readFloats_write (e : Embedding) : readFloats (writeFloats e) = e := by
  induction e with
  | nil => rfl
  | cons x e ih =>
    have hx : .ofNat 32 (ofBytes (toBytes 4 x.toNat)) = x := by
      rw [ofBytes_toBytes x.isLt, BitVec.ofNat_toNat, BitVec.setWidth_eq]
    show .ofNat 32 (ofBytes (toBytes 4 x.toNat)) :: readFloats (writeFloats e) = _
    rw [hx, ih]

theorem readVectors_write (arena : Embedding) :
    readVectors (Saved.vectorsHeader ++ writeFloats arena) = .ok arena := by
  have hhead : (do readMagic vectorsMagic; readVersion : Reader Unit)
      (Saved.vectorsHeader ++ writeFloats arena) = some ((), writeFloats arena) := by
    exact readVersion_append _
  unfold readVectors
  rw [hhead]
  show (if (writeFloats arena).length % 4 ≠ 0 then _ else _) = _
  rw [if_neg (by rw [length_writeFloats]; omega), readFloats_write]

namespace Saved

variable {v : Saved}

/-- The floats of the records, in the order of `vectors.bin`. -/
def arena (v : Saved) : Embedding :=
  memoryKind.floats v.memories ++ cacheKind.floats v.cacheEntries

def withArena (v : Saved) (arena : Embedding) : Saved :=
  { v with
    memories := memoryKind.graft arena 0 v.memories
    cacheEntries := cacheKind.graft arena (memoryKind.count v.memories) v.cacheEntries }

structure Sized (v : Saved) : Prop where
  dim : v.embeddingDim < 2 ^ 64
  memoryCount : v.memories.length < 2 ^ 64
  cacheCount : v.cacheEntries.length < 2 ^ 64
  memoryStrings : ∀ r ∈ v.memories, ∀ s ∈ r.strings, s.length < 2 ^ 64
  cacheStrings : ∀ c ∈ v.cacheEntries, ∀ s ∈ c.strings, s.length < 2 ^ 64
  arena : v.arena.length < 2 ^ 64

def ShortStrings (v : Saved) : Prop :=
  memoryKind.ShortStrings v.memories ∧ cacheKind.ShortStrings v.cacheEntries

instance (v : Saved) : Decidable v.ShortStrings := inferInstanceAs (Decidable (_ ∧ _))

theorem length_arena (v : Saved) :
    v.arena.length = memoryKind.count v.memories + cacheKind.count v.cacheEntries := by
  rw [arena, length_append, RecordKind.length_floats, RecordKind.length_floats]

theorem Sized.memories (h : v.Sized) : memoryKind.Sized 0 v.memories := by
  have := h.arena
  rw [length_arena] at this
  exact ⟨h.memoryStrings, by omega⟩

theorem Sized.cacheEntries (h : v.Sized) :
    cacheKind.Sized (memoryKind.count v.memories) v.cacheEntries := by
  have := h.arena
  rw [length_arena] at this
  exact ⟨h.cacheStrings, by omega⟩

theorem readHeader_write (h : v.Sized) (rest : Bytes) : readHeader (v.recordsHeader ++ rest) =
      some (⟨v.embeddingDim, v.nextMemoryId, v.nextCacheId, v.memories.length,
        v.cacheEntries.length⟩, rest) := by
  unfold readHeader recordsHeader
  simp only [append_assoc]
  rw [read_step _ (readMagic_append (by decide) _), read_step _ (readVersion_append _),
    readPod_toBytes h.dim, readUInt64_toBytes, readUInt64_toBytes, readPod_toBytes h.memoryCount,
    readPod_toBytes h.cacheCount]
  rfl

theorem writes_eq (v : Saved) : v.writes =
    writeEach memoryKind.write memoryKind.embedding 0 v.memories ++
      writeEach cacheKind.write cacheKind.embedding (memoryKind.count v.memories)
        v.cacheEntries := rfl

theorem vectorsFile_eq (v : Saved) : v.vectorsFile = vectorsHeader ++ writeFloats v.arena := by
  rw [vectorsFile, writes_eq, flatMap_append, RecordKind.writeEach_fst, RecordKind.writeEach_fst]
  congr 1
  exact flatMap_append.symm

theorem recordsFile_eq (v : Saved) : v.recordsFile = v.recordsHeader ++
    ((writeEach memoryKind.write memoryKind.embedding 0 v.memories).flatMap Prod.snd ++
      (writeEach cacheKind.write cacheKind.embedding (memoryKind.count v.memories)
        v.cacheEntries).flatMap Prod.snd) := by
  rw [recordsFile, writes_eq, flatMap_append]

/-- The records of a snapshot are read with any vectors long enough. -/
theorem readSaved_written (h : v.Sized) (arena : Embedding) :
    (readSaved v.recordsFile (vectorsHeader ++ writeFloats arena)).toOption =
      if v.ShortStrings ∧ v.arena.length ≤ arena.length then
        some (v.withArena arena) else none := by
  have hm := RecordKind.readMany_writeEach arena h.memories
    ((writeEach cacheKind.write cacheKind.embedding (memoryKind.count v.memories)
      v.cacheEntries).flatMap Prod.snd)
  have hc := RecordKind.readMany_writeEach arena h.cacheEntries []
  rw [append_nil] at hc
  -- The slices of the memories and those of the cache fit when the last one does.
  have hfit : v.ShortStrings ∧ v.arena.length ≤ arena.length ↔ (memoryKind.ShortStrings v.memories ∧
        (v.memories = [] ∨ 0 + memoryKind.count v.memories ≤ arena.length)) ∧
      (cacheKind.ShortStrings v.cacheEntries ∧ (v.cacheEntries = [] ∨
        memoryKind.count v.memories + cacheKind.count v.cacheEntries ≤ arena.length)) := by
    rw [length_arena]
    constructor
    · rintro ⟨⟨hm, hc⟩, hle⟩
      exact ⟨⟨hm, .inr (by omega)⟩, hc, .inr hle⟩
    rintro ⟨⟨hm, hmle⟩, hc, hle⟩
    refine ⟨⟨hm, hc⟩, ?_⟩
    rcases hle with hnil | hle
    · rw [hnil]
      rcases hmle with hmnil | hmle
      · rw [hmnil]
        exact Nat.zero_le _
      · show _ + 0 ≤ _
        omega
    · exact hle
  rw [recordsFile_eq]
  unfold readSaved
  simp only [bind, Except.bind, expect, readHeader_write h, readVectors_write,
    if_congr hfit rfl rfl]
  change readMany (readMemory arena) v.memories.length _ = _ at hm
  change readMany (readCache arena) v.cacheEntries.length _ = _ at hc
  rw [hm]
  by_cases hmem : memoryKind.ShortStrings v.memories ∧
      (v.memories = [] ∨ 0 + memoryKind.count v.memories ≤ arena.length)
  · rw [if_pos hmem]
    dsimp only
    rw [hc]
    by_cases hcache : cacheKind.ShortStrings v.cacheEntries ∧ (v.cacheEntries = [] ∨
        memoryKind.count v.memories + cacheKind.count v.cacheEntries ≤ arena.length)
    · rw [if_pos hcache, if_pos ⟨hmem, hcache⟩]
      rfl
    · rw [if_neg hcache, if_neg fun hboth => hcache hboth.2]
      rfl
  · rw [if_neg hmem, if_neg fun hboth => hmem hboth.1]
    rfl

/-! ## Other vectors -/

variable {arena : Embedding}

section

variable (h : v.arena.length ≤ arena.length)

include h

theorem arena_withArena : (v.withArena arena).arena = arena.take v.arena.length := by
  rw [length_arena] at h ⊢
  have hm : memoryKind.floats (v.withArena arena).memories =
      (arena.drop 0).take (memoryKind.count v.memories) :=
    RecordKind.floats_graft (by omega)
  have hc : cacheKind.floats (v.withArena arena).cacheEntries =
      (arena.drop (memoryKind.count v.memories)).take (cacheKind.count v.cacheEntries) :=
    RecordKind.floats_graft h
  rw [Saved.arena, hm, hc, drop_zero, take_add]

/-- The records keep their embeddings exactly when their arena begins the other. -/
theorem withArena_eq_self_iff : v.withArena arena = v ↔ v.arena <+: arena := by
  constructor
  · intro heq
    have harena := arena_withArena h
    rw [heq] at harena
    rw [harena]
    exact take_prefix _ _
  · intro hpre
    have htake := prefix_iff_eq_take.mp hpre
    rw [length_arena, take_add] at htake
    rw [length_arena] at h
    obtain ⟨hm, hc⟩ := append_inj htake (by
      rw [RecordKind.length_floats, length_take]
      omega)
    have hmem : memoryKind.graft arena 0 v.memories = v.memories :=
      RecordKind.graft_of_floats hm.symm
    have hcache : cacheKind.graft arena (memoryKind.count v.memories) v.cacheEntries =
        v.cacheEntries := RecordKind.graft_of_floats hc.symm
    rw [withArena, hmem, hcache]

/-- The file of the records does not show the floats. -/
theorem recordsFile_withArena : (v.withArena arena).recordsFile = v.recordsFile := by
  rw [length_arena] at h
  have hcount : memoryKind.count (v.withArena arena).memories = memoryKind.count v.memories :=
    congrArg sum (RecordKind.map_length_graft (k := memoryKind) (l := v.memories) (by omega))
  have hheader : (v.withArena arena).recordsHeader = v.recordsHeader := by
    unfold recordsHeader withArena
    rw [RecordKind.length_graft, RecordKind.length_graft]
  have hm : (writeEach memoryKind.write memoryKind.embedding 0
      (v.withArena arena).memories).map Prod.snd = _ :=
    RecordKind.writeEach_graft (l := v.memories) (by omega)
  have hc : (writeEach cacheKind.write cacheKind.embedding (memoryKind.count v.memories)
      (v.withArena arena).cacheEntries).map Prod.snd = _ :=
    RecordKind.writeEach_graft (l := v.cacheEntries) h
  rw [recordsFile_eq, recordsFile_eq, hheader, hcount, flatMap_def, flatMap_def, hm, hc,
    ← flatMap_def, ← flatMap_def]

end

end Saved

end Zepto.Ai
