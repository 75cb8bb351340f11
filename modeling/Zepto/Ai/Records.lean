import Zepto.Lib.Bytes
import Zepto.Lib.Rows
import Zepto.Lib.Single
import Zepto.Lib.Stream

/-!
# Agent memories and cache entries

The records of the agent memory store (`agent_memory.h`), the arithmetic on their embeddings, and
the keys under which the store finds them. A `std::string` is a list of bytes and a `float` its bit
pattern. Empty embeddings stand for no embedding.
-/

namespace Zepto.Ai

open Zepto.Lib

section

variable {e a b : Embedding}

/-- A `std::string`. -/
abbrev Bytes := List Byte

abbrev Embedding := List Single

def ascii (s : String) : Bytes := s.toList.map fun c => .ofNat 8 c.toNat

def newline : Byte := 10#8

structure MemoryRecord where
  memoryId : Bytes := []
  tenantId : Bytes := []
  namespaceId : Bytes := ascii "default"
  userId : Bytes := []
  sessionId : Bytes := []
  agentId : Bytes := []
  type : Bytes := ascii "memory"
  content : Bytes := []
  metadataJson : Bytes := [123#8, 125#8]
  embedding : Embedding := []
  tokenCount : Int64 := 0
  /-- The bits of a double. -/
  importance : BitVec 64 := 0
  createdAtNs : Int64 := 0
  lastAccessedNs : Int64 := 0
  expiresAtNs : Int64 := 0
  pinned : Bool := false
  accessCount : UInt64 := 0
  deriving DecidableEq, Inhabited

structure CacheEntry where
  cacheId : Bytes := []
  tenantId : Bytes := []
  namespaceId : Bytes := ascii "default"
  prompt : Bytes := []
  response : Bytes := []
  metadataJson : Bytes := [123#8, 125#8]
  embedding : Embedding := []
  tokenCount : Int64 := 0
  createdAtNs : Int64 := 0
  lastAccessedNs : Int64 := 0
  expiresAtNs : Int64 := 0
  accessCount : UInt64 := 0
  deriving DecidableEq, Inhabited

structure CacheLookup where
  tenantId : Bytes := []
  namespaceId : Bytes := ascii "default"
  prompt : Bytes := []
  embedding : Embedding := []
  semanticThreshold : Float := doubleOfBits 0x3fed70a3d70a3d71
  nowNs : Int64 := 0

structure CacheLookupResult where
  hit : Bool := false
  exact : Bool := false
  score : Float := doubleOfInt 0
  entry : CacheEntry := {}
  deriving DecidableEq

inductive EvictionTarget where
  | memory
  | cache
  deriving DecidableEq

/-- `AgentMemoryEvictionEvent`. -/
structure EvictionEvent where
  target : EvictionTarget := .memory
  memoryId : Bytes := []
  tenantId : Bytes := []
  namespaceId : Bytes := []
  prompt : Bytes := []
  memory : MemoryRecord := {}
  cache : CacheEntry := {}
  deriving DecidableEq

def memoryEvictionEvent (r : MemoryRecord) : EvictionEvent :=
  { target := .memory, memoryId := r.memoryId, tenantId := r.tenantId,
    namespaceId := r.namespaceId, memory := r }

def cacheEvictionEvent (c : CacheEntry) : EvictionEvent :=
  { target := .cache, tenantId := c.tenantId, namespaceId := c.namespaceId, prompt := c.prompt,
    cache := c }

structure StoreResult where
  ok : Bool := false
  id : Bytes := []
  error : String := ""
  evictions : List EvictionEvent := []
  deriving DecidableEq

structure IdConfig where
  ownerScoped : Bool := false
  nodeId : UInt32 := 0
  ringEpoch : UInt64 := 0
  deriving DecidableEq

structure TenantQuota where
  tenantId : Bytes
  namespaceId : Bytes := []
  maxMemories : Nat := 0
  maxCacheEntries : Nat := 0
  deriving DecidableEq

structure EvictionConfig where
  maxMemories : Nat := 0
  maxCacheEntries : Nat := 0
  evictExpiredOnWrite : Bool := true
  protectPinned : Bool := true
  tenantQuotas : List TenantQuota := []
  deriving DecidableEq

/-! ## Keys and ids -/

/-- `std::isspace` of the C locale. -/
def isSpace (b : Byte) : Bool := b = 32#8 || 9 ≤ b.toNat && b.toNat ≤ 13

/-- `std::tolower` of the C locale. -/
def toLower (b : Byte) : Byte := if 65 ≤ b.toNat && b.toNat ≤ 90 then b + 32#8 else b

/-- One round of `normalize_prompt`: the text so far and `in_space`. -/
def normalizeByte (acc : Bytes × Bool) (ch : Byte) : Bytes × Bool :=
  if isSpace ch then (acc.1, true)
  else ((if acc.2 && !acc.1.isEmpty then acc.1 ++ [32#8] else acc.1) ++ [toLower ch], false)

def normalizePrompt (prompt : Bytes) : Bytes := (prompt.foldl normalizeByte ([], false)).1

/-- An empty namespace is `default`. -/
def orDefault (namespaceId : Bytes) : Bytes :=
  if namespaceId.isEmpty then ascii "default" else namespaceId

def exactKey (tenantId namespaceId prompt : Bytes) : Bytes :=
  tenantId ++ [newline] ++ namespaceId ++ [newline] ++ normalizePrompt prompt

def CacheEntry.exactKey (c : CacheEntry) : Bytes := Ai.exactKey c.tenantId c.namespaceId c.prompt

def annPartitionKey (tenantId namespaceId : Bytes) : Bytes := tenantId ++ [newline] ++ namespaceId

def MemoryRecord.annKey (r : MemoryRecord) : Bytes := annPartitionKey r.tenantId r.namespaceId

def digits (n : Nat) : Bytes := (decimal n).map fun c => .ofNat 8 c.toNat

/-- The id `next_id_` makes of a counter. -/
def IdConfig.nextId (c : IdConfig) (kind : Bytes) (counter : UInt64) : Bytes :=
  if c.ownerScoped then
    kind ++ ascii "_" ++ digits c.nodeId.toNat ++ ascii "_" ++ digits c.ringEpoch.toNat ++
      ascii "_" ++ digits counter.toNat
  else kind ++ ascii "_" ++ digits counter.toNat

def hasExpiry (expiresAtNs : Int64) : Bool := 0 < expiresAtNs

def expired (expiresAtNs now : Int64) : Bool := 0 < expiresAtNs && expiresAtNs ≤ now

def estimateTokens (content : Bytes) : Int64 :=
  if content.isEmpty then 0 else .ofNat ((content.length + 3) / 4)

/-- What a time that has passed adds to a retention score. -/
def recency (lastAccessedNs createdAtNs now : Int64) : Float :=
  let lastSeen := if 0 < lastAccessedNs then lastAccessedNs else createdAtNs
  if 0 < lastSeen && lastSeen < now then
    let ageHours := doubleOfInt (now - lastSeen).toInt / doubleOfInt 3600000000000
    doubleOfInt 1 /
      (doubleOfInt 1 + if doubleOfInt 0 < ageHours then ageHours else doubleOfInt 0)
  else doubleOfInt 1

def accessScore (accessCount : UInt64) : Float :=
  let count := doubleOfInt accessCount.toNat
  if count < doubleOfInt 50 then count else doubleOfInt 50

def memoryRetentionScore (r : MemoryRecord) (now : Int64) : Float :=
  let score := doubleOfBits r.importance.toNat * doubleOfInt 100 + accessScore r.accessCount +
    recency r.lastAccessedNs r.createdAtNs now
  if r.pinned then score + doubleOfInt 1000000 else score

def cacheRetentionScore (c : CacheEntry) (now : Int64) : Float :=
  accessScore c.accessCount + recency c.lastAccessedNs c.createdAtNs now

/-! ## Embeddings -/

/-- `vector<float>::operator==`. -/
def Embedding.same (a b : Embedding) : Bool :=
  a.length = b.length && (a.zip b).all fun (x, y) => x.same y

def normSq (e : Embedding) : Float :=
  e.foldl (fun acc x => acc + x.value * x.value) (doubleOfInt 0)

/-- The norm is positive and finite. -/
def Embedding.hasNorm (e : Embedding) : Bool :=
  !(normSq e ≤ doubleOfInt 0 || !(normSq e).isFinite)

/-- `normalize_embedding_` of the store and `normalize_` of the indexes. -/
def normalizeEmbedding (e : Embedding) : Embedding :=
  if e.isEmpty || !e.hasNorm then []
  else
    let invNorm := doubleOfInt 1 / (normSq e).sqrt
    e.map fun x => .ofDouble (x.value * invNorm)

def dot (a b : Embedding) : Float :=
  (a.zip b).foldl (fun acc (x, y) => acc + x.value * y.value) (doubleOfInt 0)

def cosineSimilarity (a b : Embedding) : Float :=
  if a.isEmpty || a.length ≠ b.length then doubleOfInt 0
  else if normSq a ≤ doubleOfInt 0 || normSq b ≤ doubleOfInt 0 then doubleOfInt 0
  else dot a b / ((normSq a).sqrt * (normSq b).sqrt)

/-- `validate_embedding_`: the dimension of the store afterwards. -/
def validateEmbedding (dim : Nat) (e : Embedding) : Except String Nat :=
  if e.isEmpty then .ok dim
  else if e.any fun x => !x.isFinite then .error "embedding contains NaN or Inf"
  else if dim ≠ 0 ∧ e.length ≠ dim then
    .error ("embedding dimension mismatch: expected " ++ toString dim ++ ", got " ++
      toString e.length)
  else .ok (if dim = 0 then e.length else dim)

@[simp]
theorem normalizeEmbedding_nil : normalizeEmbedding [] = [] := rfl

theorem normalizeEmbedding_eq_nil_iff : normalizeEmbedding e = [] ↔ e = [] ∨ e.hasNorm = false := by
  unfold normalizeEmbedding
  split_ifs with h
  · simpa using h
  simp only [Bool.or_eq_true, Bool.not_eq_eq_eq_not, Bool.not_true, not_or] at h
  simp [h.2]

theorem length_normalizeEmbedding (h : normalizeEmbedding e ≠ []) :
    (normalizeEmbedding e).length = e.length := by
  rw [Ne, normalizeEmbedding_eq_nil_iff] at h
  rw [normalizeEmbedding, if_neg (by simpa using h), List.length_map]

/-- The dimension stays, or is taken from the embedding. -/
theorem validateEmbedding_ok {dim dim' : Nat} (h : validateEmbedding dim e = .ok dim') :
    (e = [] ∧ dim' = dim) ∨ (e ≠ [] ∧ dim' = e.length ∧ (dim = 0 ∨ dim = e.length)) := by
  unfold validateEmbedding at h
  by_cases he : e = []
  · rw [he] at h ⊢
    exact .inl ⟨rfl, (Except.ok.inj h).symm⟩
  rw [if_neg (by simpa using he)] at h
  split at h
  · cases h
  split at h
  · cases h
  have hd := Except.ok.inj h
  refine .inr ⟨he, ?_⟩
  split at hd <;> omega

theorem Embedding.normSq_eq_of_same (h : a.same b) : normSq a = normSq b := by
  have aux : ∀ (a b : List Single) (acc : Float), a.length = b.length →
      (∀ p ∈ a.zip b, p.1.same p.2) →
      a.foldl (fun acc x => acc + x.value * x.value) acc =
        b.foldl (fun acc x => acc + x.value * x.value) acc := by
    intro a
    induction a with
    | nil =>
      intro b acc hlen _
      rw [List.eq_nil_of_length_eq_zero hlen.symm]
    | cons x a ih =>
      intro b acc hlen hall
      cases b with
      | nil => cases hlen
      | cons y b =>
        rw [List.zip_cons_cons, List.forall_mem_cons] at hall
        simp only [List.foldl_cons, Single.square_eq_of_same hall.1]
        exact ih b _ (by simpa using hlen) hall.2
  rw [same, Bool.and_eq_true, List.all_eq_true, decide_eq_true_eq] at h
  exact aux a b _ h.1 fun p hp => h.2 p hp

end

end Zepto.Ai
