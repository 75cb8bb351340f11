import Mathlib.Logic.Function.Basic
import Zepto.Ai.Records
import Zepto.Lib.Machine

/-!
# The log of agent-memory mutations

A handler changes the store, appends PREPARE and then COMMIT to `wal.log`, and acknowledges. A
snapshot removes the log and can come in between: COMMIT then has no PREPARE, and the replay refuses
the log. It also refuses a put over an entry of another tenant. Where neither happens and the
handlers of one key come one after another, a crash loses no acknowledged mutation (`log_recovers`).

Of the store a `Shelf` keeps the entries by key and the dimension of the embeddings. What a put
evicts, expired entries only, is deleted by handlers of its own, which follow it at once.
-/

namespace Zepto.Ai

open Function List Zepto.Lib

/-! ## The entries of a store -/

/-- A memory is found by its id, a cached answer by its exact key. -/
inductive EntryKey where
  | memory (id : Bytes)
  | cache (exactKey : Bytes)
  deriving DecidableEq

/-- A record with all its fields filled in. -/
inductive Entry where
  | memory (r : MemoryRecord)
  | cache (c : CacheEntry)

namespace Entry

def key : Entry → EntryKey
  | .memory r => .memory r.memoryId
  | .cache c => .cache c.exactKey

def tenantId : Entry → Bytes
  | .memory r => r.tenantId
  | .cache c => c.tenantId

def embedding : Entry → Embedding
  | .memory r => r.embedding
  | .cache c => c.embedding

def expiresAtNs : Entry → Int64
  | .memory r => r.expiresAtNs
  | .cache c => c.expiresAtNs

/-- Why an entry is refused whatever the store holds. -/
def fault : Entry → Option String
  | .memory r => if r.tokenCount < 0 then some "token_count must be non-negative" else none
  | .cache c =>
    if c.prompt.isEmpty then some "prompt is required"
    else if c.response.isEmpty then some "response is required"
    else if c.tokenCount < 0 then some "token_count must be non-negative"
    else none

/-- Why an entry is refused in the place of `old`. -/
def refusal (old : Entry) : Entry → Option String
  | .memory r =>
    if old.tenantId ≠ [] ∧ old.tenantId ≠ r.tenantId then
      some "memory_id belongs to a different tenant"
    else none
  | .cache c =>
    if old.tenantId ≠ [] ∧ c.tenantId ≠ [] ∧ old.tenantId ≠ c.tenantId then
      some "cache prompt belongs to a different tenant"
    else none

theorem refusal_eq_none {old e : Entry} (h : old.tenantId = e.tenantId) : old.refusal e = none := by
  cases e with
  | memory r => exact if_neg fun hne => hne.2 h
  | cache c => exact if_neg fun hne => hne.2.2 h

end Entry

/-- The entry, unless it is expired. -/
def alive (now : Int64) (e : Option Entry) : Option Entry :=
  e.filter fun e => !expired e.expiresAtNs now

theorem alive_alive (now : Int64) (e : Option Entry) : alive now (alive now e) = alive now e := by
  simp [alive]

structure Shelf where
  entries : EntryKey → Option Entry := fun _ => none
  embeddingDim : Nat := 0

namespace Shelf

variable (s : Shelf)

/-- `put_memory` and `store_cache` up to the evictions. A refused entry may leave its dimension. -/
def place (e : Entry) : Option String × Shelf :=
  match validateEmbedding s.embeddingDim e.embedding with
  | .error error => (some error, s)
  | .ok dim =>
    match e.fault.or ((s.entries e.key).bind (·.refusal e)) with
    | some error => (some error, { s with embeddingDim := dim })
    | none => (none, ⟨update s.entries e.key (some e), dim⟩)

def dropExpired (now : Int64) : Shelf := { s with entries := fun k => alive now (s.entries k) }

/-- The whole of `put_memory` and `store_cache`. -/
def put (now : Int64) (e : Entry) : Except String Shelf :=
  match s.place e with
  | (some error, _) => .error error
  | (none, placed) => .ok (placed.dropExpired now)

/-- `get_memory` and `get_cache`. The exact key has the tenant. -/
def get (key : EntryKey) (tenantId : Bytes) : Option Entry :=
  match key with
  | .memory _ => (s.entries key).filter fun e => tenantId.isEmpty || e.tenantId = tenantId
  | .cache _ => s.entries key

/-- `remove_memory` and `remove_cache`. -/
def remove (key : EntryKey) (tenantId : Bytes) : Shelf :=
  match s.get key tenantId with
  | none => s
  | some _ => { s with entries := update s.entries key none }

end Shelf

/-! ## Mutations and the log -/

inductive Mutation where
  | put (e : Entry)
  | delete (key : EntryKey) (tenantId : Bytes)

namespace Mutation

def key : Mutation → EntryKey
  | .put e => e.key
  | .delete key _ => key

def tenantId : Mutation → Bytes
  | .put e => e.tenantId
  | .delete _ tenantId => tenantId

/-- What the mutation leaves under its key. -/
def entry : Mutation → Option Entry
  | .put e => some e
  | .delete .. => none

/-- The request on the live store: whether it is accepted, and what it leaves. -/
def request (s : Shelf) : Mutation → Bool × Shelf
  | .put e => ((s.place e).1.isNone, (s.place e).2)
  | .delete key tenantId => ((s.get key tenantId).isSome, s.remove key tenantId)

/-- `apply_agent_memory_wal_mutation`. -/
def replay (now : Int64) (s : Shelf) : Mutation → Except String Shelf
  | .put e => s.put now e
  | .delete key tenantId => .ok (s.remove key tenantId)

/-- The effect on the entries, where nothing is refused or expires. -/
def apply (f : EntryKey → Option Entry) (m : Mutation) : EntryKey → Option Entry :=
  update f m.key m.entry

end Mutation

inductive WalRecord where
  | prepare (tx : Nat) (m : Mutation)
  | commit (tx : Nat)

structure Replay (S : Type) where
  prepared : Nat → Option Mutation := fun _ => none
  store : S

section

variable {S : Type} (apply : S → Mutation → Except String S)

def Replay.next (r : Replay S) : WalRecord → Except String (Replay S)
  | .prepare tx m => .ok { r with prepared := update r.prepared tx (some m) }
  | .commit tx =>
    match r.prepared tx with
    | none => .error "agent memory WAL commit without prepare"
    | some m => (apply r.store m).map fun store => ⟨update r.prepared tx none, store⟩

def replayRecords (r : Replay S) (records : List WalRecord) : Except String (Replay S) :=
  records.foldlM (Replay.next apply) r

end

/-- `replay_agent_memory_wal_into_store` on a log that ends with `torn` bytes of a record. -/
def replayWal (now : Int64) (snapshot : Shelf) (records : List WalRecord) (torn : Nat) :
    Except String Shelf :=
  match replayRecords (Mutation.replay now) { store := snapshot } records with
  | .error e => .error e
  | .ok r =>
    if torn = 0 then .ok r.store
    else if torn < 16 then .error "truncated agent memory WAL header"
    else .error "truncated agent memory WAL payload"

/-! ## The server -/

inductive Phase where
  | changed
  | prepared (tx : Nat)
  | committed

structure Handler where
  mutation : Mutation
  previous : Option Entry
  phase : Phase

structure LogServer where
  store : Shelf := {}
  snapshot : Shelf := {}
  wal : List WalRecord := []
  txCounter : Nat := 1
  /-- The handlers that have not answered. -/
  handlers : Nat → Option Handler := fun _ => none
  /-- A snapshot was saved and the log is not yet removed. -/
  saved : Bool := false
  /-- The effect on a key of the last mutation of it that was acknowledged. -/
  acknowledged : EntryKey → Option (Option Entry) := fun _ => none

inductive LogEvent where
  | change (i : Nat) (m : Mutation)
  | prepare (i : Nat)
  | commit (i : Nat)
  | acknowledge (i : Nat)
  | saveSnapshot
  | removeWal

namespace LogServer

variable (s : LogServer)

/-- What a handler logs: a put or a store reads its entry again, which may have been deleted. -/
def payload : Mutation → Option Mutation
  | .delete key tenantId => some (.delete key tenantId)
  | .put e => (s.store.get e.key e.tenantId).map .put

/-- The entry that was there before is put back. -/
def rollback (m : Mutation) : Option Entry → Shelf
  | some previous => (s.store.place previous).2
  | none => s.store.remove m.key m.tenantId

def step : LogEvent → LogServer
  | .change i m =>
    match s.handlers i with
    | some _ => s
    | none =>
      match m.request s.store with
      | (false, store) => { s with store }
      | (true, store) =>
        { s with
          store
          handlers := update s.handlers i (some ⟨m, s.store.get m.key m.tenantId, .changed⟩) }
  | .prepare i =>
    match s.handlers i with
    | some ⟨m, previous, .changed⟩ =>
      if s.saved then s
      else match s.payload m with
        | none =>
          { s with store := s.rollback m previous, handlers := update s.handlers i none }
        | some logged =>
          { s with
            wal := s.wal ++ [.prepare s.txCounter logged]
            txCounter := s.txCounter + 1
            handlers := update s.handlers i (some ⟨m, previous, .prepared s.txCounter⟩) }
    | _ => s
  | .commit i =>
    match s.handlers i with
    | some ⟨m, previous, .prepared tx⟩ =>
      if s.saved then s
      else
        { s with
          wal := s.wal ++ [.commit tx]
          handlers := update s.handlers i (some ⟨m, previous, .committed⟩) }
    | _ => s
  | .acknowledge i =>
    match s.handlers i with
    | some ⟨m, _, .committed⟩ =>
      { s with
        handlers := update s.handlers i none
        acknowledged := update s.acknowledged m.key (some m.entry) }
    | _ => s
  | .saveSnapshot => if s.saved then s else { s with snapshot := s.store, saved := true }
  | .removeWal => if s.saved then { s with wal := [], saved := false } else s

/-- After a crash the log replays, and a key has the effect of its last acknowledged mutation or of
one in flight, as long as it has not expired. -/
def Recovers (torn : Nat) (now : Int64) : Prop :=
  ∃ store, replayWal now s.snapshot s.wal torn = .ok store ∧
    ∀ k e, s.acknowledged k = some e → alive now (store.entries k) = alive now e ∨
      ∃ i h, s.handlers i = some h ∧ h.mutation.key = k ∧
        alive now (store.entries k) = alive now h.mutation.entry

end LogServer

/-- The key is used by one tenant; a delete may leave the tenant open. -/
def Mutation.Owned (owner : EntryKey → Bytes) (m : Mutation) : Prop :=
  m.tenantId = owner m.key ∨ m.entry = none ∧ m.tenantId = []

/-- The tenant has the key and no other handler of it is in flight; no snapshot between PREPARE and
COMMIT. -/
def LogServer.Apart (owner : EntryKey → Bytes) (s : LogServer) : LogEvent → Prop
  | .change _ m => m.Owned owner ∧ ∀ i h, s.handlers i = some h → h.mutation.key ≠ m.key
  | .saveSnapshot => ∀ i h tx, s.handlers i = some h → h.phase ≠ .prepared tx
  | _ => True

def logMachine : Machine LogServer LogEvent Unit where
  step s e := ((), s.step e)

/-! ## What a log brings back -/

/-- The committed mutations of a log, in their order. -/
def collect (l : List Mutation) (m : Mutation) : Except String (List Mutation) := .ok (l ++ [m])

theorem replayRecords_append {S : Type} (apply : S → Mutation → Except String S) (r : Replay S)
    (records : List WalRecord) (x : WalRecord) : replayRecords apply r (records ++ [x]) =
      (replayRecords apply r records).bind fun r => r.next apply x := by
  unfold replayRecords
  rw [foldlM_append]
  rcases records.foldlM (Replay.next apply) r with e | r'
  · rfl
  · show (r'.next apply x >>= pure) = r'.next apply x
    exact bind_pure _

/-- A replay applies the committed mutations one after another. -/
theorem replayRecords_eq {S : Type} (apply : S → Mutation → Except String S) (b : S)
    {records : List WalRecord} {prepared : Nat → Option Mutation} {l : List Mutation}
    (h : replayRecords collect { store := [] } records = .ok ⟨prepared, l⟩) :
    replayRecords apply { store := b } records = (l.foldlM apply b).map (⟨prepared, ·⟩) := by
  induction records using reverseRecOn generalizing prepared l with
  | nil =>
    cases h
    rfl
  | append_singleton records x ih =>
    rw [replayRecords_append] at h ⊢
    cases hr : replayRecords collect { store := [] } records with
    | error e =>
      rw [hr] at h
      cases h
    | ok r =>
      rw [hr] at h
      rw [ih hr]
      cases x with
      | prepare tx m =>
        cases h
        cases foldlM apply b r.store <;> rfl
      | commit tx =>
        simp only [Except.bind, Replay.next] at h
        cases hm : r.prepared tx with
        | none =>
          rw [hm] at h
          cases h
        | some m =>
          rw [hm] at h
          cases h
          rw [foldlM_append]
          cases foldlM apply b r.store with
          | error e => rfl
          | ok b' =>
            simp only [Except.map, Except.bind, Replay.next, hm, bind, foldlM_cons,
              foldlM_nil]
            cases apply b' m <;> rfl

/-- The mutations have no part in which records find their PREPARE. -/
theorem collect_of_replay {S : Type} {apply : S → Mutation → Except String S} {r r' : Replay S}
    {records : List WalRecord} (h : replayRecords apply r records = .ok r') (l : List Mutation) :
    ∃ l', replayRecords collect ⟨r.prepared, l⟩ records = .ok ⟨r'.prepared, l'⟩ := by
  induction records generalizing r l with
  | nil =>
    cases h
    exact ⟨l, rfl⟩
  | cons x records ih =>
    unfold replayRecords at h ⊢
    rw [foldlM_cons] at h ⊢
    cases x with
    | prepare tx m => exact ih h l
    | commit tx =>
      simp only [Replay.next] at h ⊢
      cases hm : r.prepared tx with
      | none =>
        rw [hm] at h
        cases h
      | some m =>
        rw [hm] at h
        dsimp only at h
        cases hs : apply r.store m with
        | error e =>
          rw [hs] at h
          cases h
        | ok store =>
          rw [hs] at h
          exact ih h (l ++ [m])

/-! ### Nothing is refused -/

/-- An accepted mutation of the tenant of its key. -/
structure Mutation.Fits (owner : EntryKey → Bytes) (dim : Nat) (m : Mutation) : Prop where
  owned : m.Owned owner
  sound : ∀ e, m = .put e → e.fault = none ∧ validateEmbedding dim e.embedding = .ok dim

/-- Every entry is of the tenant of its key, and the dimension is open or the given one. -/
structure Shelf.Ready (owner : EntryKey → Bytes) (dim : Nat) (b : Shelf) : Prop where
  owned : ∀ k e, b.entries k = some e → e.tenantId = owner k
  dim : b.embeddingDim = 0 ∨ b.embeddingDim = dim

section

variable {owner : EntryKey → Bytes} {dim dim' : Nat} {now : Int64} {b : Shelf} {m : Mutation}

theorem validateEmbedding_self {e : Embedding} (h : validateEmbedding dim e = .ok dim') :
    validateEmbedding dim' e = .ok dim' ∧ (dim = 0 ∨ dim' = dim) := by
  unfold validateEmbedding at h ⊢
  split_ifs at h ⊢ <;> cases h <;> simp_all

theorem validateEmbedding_grow {e : Embedding} (h : validateEmbedding dim e = .ok dim)
    (hdim : dim = 0 ∨ dim' = dim) : validateEmbedding dim' e = .ok dim' := by
  rcases hdim with rfl | rfl
  · rcases validateEmbedding_ok h with ⟨rfl, -⟩ | ⟨hne, hlen, -⟩
    · rfl
    · exact absurd (eq_nil_of_length_eq_zero hlen.symm) hne
  · exact h

theorem validateEmbedding_open {e : Embedding} {d : Nat} (h : validateEmbedding dim e = .ok dim)
    (hd : d = 0 ∨ d = dim) : ∃ d', validateEmbedding d e = .ok d' ∧ (d' = 0 ∨ d' = dim) := by
  rcases hd with rfl | rfl
  · rcases validateEmbedding_ok h with ⟨rfl, -⟩ | ⟨hne, hlen, -⟩
    · exact ⟨0, rfl, .inl rfl⟩
    · unfold validateEmbedding at h ⊢
      split_ifs at h ⊢ <;> simp_all
  · exact ⟨d, h, .inr rfl⟩

theorem Mutation.Fits.grow (h : m.Fits owner dim) (hdim : dim = 0 ∨ dim' = dim) :
    m.Fits owner dim' :=
  ⟨h.owned, fun e he => ⟨(h.sound e he).1, validateEmbedding_grow (h.sound e he).2 hdim⟩⟩

theorem Shelf.Ready.grow (h : b.Ready owner dim) (hdim : dim = 0 ∨ dim' = dim) :
    b.Ready owner dim' :=
  ⟨h.owned, by have := h.dim; omega⟩

theorem owned_update {f : EntryKey → Option Entry}
    (h : ∀ k e, f k = some e → e.tenantId = owner k) (hm : m.Owned owner) (k : EntryKey) (e : Entry)
    (he : m.apply f k = some e) : e.tenantId = owner k := by
  by_cases hk : k = m.key
  · subst hk
    rw [Mutation.apply, update_self] at he
    cases m with
    | put new =>
      cases he
      exact hm.resolve_right nofun
    | delete key tenantId => cases he
  · rw [Mutation.apply, update_of_ne hk] at he
    exact h k e he

namespace Shelf.Ready

theorem place_eq {e : Entry} (hb : b.Ready owner dim) (hm : (Mutation.put e).Owned owner)
    (hfault : e.fault = none) (hdim : validateEmbedding b.embeddingDim e.embedding = .ok dim') :
    b.place e = (none, ⟨Mutation.apply b.entries (.put e), dim'⟩) := by
  have hnone : (b.entries e.key).bind (·.refusal e) = none := by
    cases ho : b.entries e.key with
    | none => rfl
    | some old =>
      exact Entry.refusal_eq_none ((hb.owned _ _ ho).trans (hm.resolve_right nofun).symm)
  simp only [Shelf.place, hdim, hfault, hnone, Option.none_or]
  rfl

theorem get_eq {key : EntryKey} {tenantId : Bytes} (hb : b.Ready owner dim)
    (hm : tenantId = owner key ∨ tenantId = []) : b.get key tenantId = b.entries key := by
  cases key with
  | cache exactKey => rfl
  | memory id =>
    unfold Shelf.get
    cases he : b.entries (.memory id) with
    | none => rfl
    | some e =>
      refine Option.filter_some_pos ?_
      rcases hm with rfl | rfl
      · simp [hb.owned _ e he]
      · rfl

theorem remove_eq {key : EntryKey} {tenantId : Bytes} (hb : b.Ready owner dim)
    (hm : (Mutation.delete key tenantId).Owned owner) :
    b.remove key tenantId =
      { b with entries := Mutation.apply b.entries (.delete key tenantId) } := by
  have hget : b.get key tenantId = b.entries key := hb.get_eq (hm.imp_right And.right)
  rw [Shelf.remove, hget]
  cases he : b.entries key with
  | none =>
    have hsame : update b.entries key none = b.entries := by
      rw [← he]
      exact update_eq_self ..
    exact congrArg (Shelf.mk · b.embeddingDim) hsame.symm
  | some e => rfl

/-- A request on the live store is refused, or takes effect. -/
theorem request (hb : b.Ready owner b.embeddingDim) (hm : m.Owned owner) :
    (b.embeddingDim = 0 ∨ (m.request b).2.embeddingDim = b.embeddingDim) ∧
      ((m.request b).1 = false ∧ (m.request b).2.entries = b.entries ∨
        (m.request b).1 = true ∧ (m.request b).2.entries = m.apply b.entries ∧
          m.Fits owner (m.request b).2.embeddingDim) := by
  cases m with
  | delete key tenantId =>
    have hget : b.get key tenantId = b.entries key := hb.get_eq (hm.imp_right And.right)
    rw [Mutation.request, hb.remove_eq hm, hget]
    refine ⟨.inr rfl, ?_⟩
    cases he : b.entries key with
    | none =>
      refine .inl ⟨rfl, ?_⟩
      rw [Mutation.apply, Mutation.key, Mutation.entry, ← he]
      exact update_eq_self ..
    | some e => exact .inr ⟨rfl, rfl, hm, nofun⟩
  | put e =>
    cases hdim : validateEmbedding b.embeddingDim e.embedding with
    | error error =>
      have hplace : b.place e = (some error, b) := by simp only [Shelf.place, hdim]
      simp [Mutation.request, hplace]
    | ok dim' =>
      obtain ⟨hself, hgrow⟩ := validateEmbedding_self hdim
      cases hfault : e.fault with
      | some error =>
        have hplace : b.place e = (some error, { b with embeddingDim := dim' }) := by
          simp only [Shelf.place, hdim, hfault, Option.some_or]
        simp [Mutation.request, hplace, hgrow]
      | none =>
        rw [Mutation.request, hb.place_eq hm hfault hdim]
        refine ⟨hgrow, .inr ⟨rfl, rfl, hm, fun e' he => ?_⟩⟩
        cases he
        exact ⟨hfault, hself⟩

/-- A mutation that fits takes effect in a replay, up to what has expired. -/
theorem replay (hb : b.Ready owner dim) (hm : m.Fits owner dim) :
    ∃ b', m.replay now b = .ok b' ∧ b'.Ready owner dim ∧
      ∀ k, alive now (b'.entries k) = alive now (m.apply b.entries k) := by
  cases m with
  | delete key tenantId =>
    refine ⟨_, rfl, ?_⟩
    rw [hb.remove_eq hm.owned]
    exact ⟨⟨owned_update hb.owned hm.owned, hb.dim⟩, fun _ => rfl⟩
  | put e =>
    obtain ⟨hfault, hdim⟩ := hm.sound e rfl
    obtain ⟨d, hd, hopen⟩ := validateEmbedding_open hdim hb.dim
    refine ⟨_, by rw [Mutation.replay, Shelf.put, hb.place_eq hm.owned hfault hd], ⟨?_, hopen⟩, ?_⟩
    · intro k e' he'
      exact owned_update hb.owned hm.owned k e' (Option.filter_eq_some_iff.mp he').1
    · exact fun k => alive_alive ..

end Shelf.Ready

theorem alive_foldl_apply {f g : EntryKey → Option Entry}
    (h : ∀ k, alive now (f k) = alive now (g k)) (l : List Mutation) (k : EntryKey) :
    alive now (l.foldl Mutation.apply f k) = alive now (l.foldl Mutation.apply g k) := by
  induction l generalizing f g with
  | nil => exact h k
  | cons m l ih =>
    refine ih fun k => ?_
    by_cases hk : k = m.key
    · simp [Mutation.apply, hk]
    · simpa [Mutation.apply, hk] using h k

theorem Shelf.Ready.foldlM_replay (now : Int64) (hb : b.Ready owner dim) {l : List Mutation}
    (hl : ∀ m ∈ l, m.Fits owner dim) :
    ∃ b', l.foldlM (Mutation.replay now) b = .ok b' ∧ b'.Ready owner dim ∧
      ∀ k, alive now (b'.entries k) = alive now (l.foldl Mutation.apply b.entries k) := by
  induction l generalizing b with
  | nil => exact ⟨b, rfl, hb, fun _ => rfl⟩
  | cons m l ih =>
    obtain ⟨hm, hl⟩ := forall_mem_cons.mp hl
    obtain ⟨b1, hfirst, hb1, hentries⟩ := hb.replay hm
    obtain ⟨b2, hrest, hb2, hentries'⟩ := ih hb1 hl
    refine ⟨b2, ?_, hb2, fun k => (hentries' k).trans (alive_foldl_apply hentries l k)⟩
    rw [foldlM_cons, hfirst]
    exact hrest

end

/-! ### The handlers in flight -/

/-- A key has the value it started with, or one that does not depend on it. -/
theorem foldl_apply_cases (l : List Mutation) (k : EntryKey) :
    (∀ b b', l.foldl Mutation.apply b k = l.foldl Mutation.apply b' k) ∨
      ∀ b, l.foldl Mutation.apply b k = b k := by
  induction l with
  | nil => exact .inr fun _ => rfl
  | cons m l ih =>
    rcases ih with ih | ih
    · exact .inl fun b b' => ih _ _
    by_cases hk : k = m.key
    · subst hk
      exact .inl fun b b' => by simp [ih, Mutation.apply]
    · exact .inr fun b => by simp [ih, Mutation.apply, hk]

section

variable {store R R' : EntryKey → Option Entry} {handlers : Nat → Option Handler}
  {acked : EntryKey → Option (Option Entry)} {i : Nat} {m : Mutation} {previous : Option Entry}
  {phase phase' : Phase}

/-- The recovered values `R` are those of the store where no handler is in flight. -/
structure Right (store : EntryKey → Option Entry) (handlers : Nat → Option Handler)
    (acked : EntryKey → Option (Option Entry)) (R : EntryKey → Option Entry) : Prop where
  idle : ∀ k, (∀ i h, handlers i = some h → h.mutation.key ≠ k) →
    R k = store k ∧ ∀ e, acked k = some e → store k = e
  busy : ∀ i h, handlers i = some h → store h.mutation.key = h.mutation.entry ∧
    (h.phase = .committed → R h.mutation.key = h.mutation.entry) ∧
    ∀ e, acked h.mutation.key = some e →
      R h.mutation.key = e ∨ R h.mutation.key = h.mutation.entry

def Alone (handlers : Nat → Option Handler) : Prop :=
  ∀ i j h h', handlers i = some h → handlers j = some h' → h.mutation.key = h'.mutation.key → i = j

theorem handler_update {o : Option Handler} {j : Nat} {x : Handler}
    (h : update handlers i o j = some x) :
    j = i ∧ o = some x ∨ j ≠ i ∧ handlers j = some x := by
  by_cases hji : j = i
  · rw [hji, update_self] at h
    exact .inl ⟨hji, h⟩
  · rw [update_of_ne hji] at h
    exact .inr ⟨hji, h⟩

theorem Right.change (h : Right store handlers acked R)
    (hfree : ∀ j h, handlers j = some h → h.mutation.key ≠ m.key) (hi : handlers i = none) :
    Right (m.apply store) (update handlers i (some ⟨m, previous, .changed⟩)) acked R := by
  refine ⟨fun k hk => ?_, fun j hj hhandler => ?_⟩
  · have hne : k ≠ m.key := fun heq => hk i _ (update_self ..) heq.symm
    rw [Mutation.apply, update_of_ne hne]
    refine h.idle k fun j hj hhandler => hk j hj ?_
    rwa [update_of_ne]
    rintro rfl
    cases hi.symm.trans hhandler
  · rcases handler_update hhandler with ⟨-, hnew⟩ | ⟨-, hhandler⟩
    · cases hnew
      obtain ⟨hR, hack⟩ := h.idle m.key hfree
      exact ⟨update_self .., nofun, fun e he => .inl (hR.trans (hack e he))⟩
    · rw [Mutation.apply, update_of_ne (hfree j hj hhandler)]
      exact h.busy j hj hhandler

/-- A handler goes on; the recovered values change at most at its key, to its entry. -/
theorem Right.move (h : Right store handlers acked R) (halone : Alone handlers)
    (hi : handlers i = some ⟨m, previous, phase⟩) (hR : ∀ k, k ≠ m.key → R' k = R k)
    (hkey : R' m.key = m.entry ∨ phase' ≠ .committed ∧ R' m.key = R m.key) :
    Right store (update handlers i (some ⟨m, previous, phase'⟩)) acked R' := by
  obtain ⟨hstore, -, hack⟩ := h.busy i _ hi
  refine ⟨fun k hk => ?_, fun j hj hhandler => ?_⟩
  · have hne : k ≠ m.key := fun heq => hk i _ (update_self ..) heq.symm
    rw [hR k hne]
    refine h.idle k fun j hj hhandler => ?_
    by_cases hji : j = i
    · subst hji
      cases hi.symm.trans hhandler
      exact hne.symm
    · exact hk j hj (by rwa [update_of_ne hji])
  · rcases handler_update hhandler with ⟨-, hnew⟩ | ⟨hji, hhandler⟩
    · cases hnew
      rcases hkey with hkey | ⟨hphase, hkey⟩
      · exact ⟨hstore, fun _ => hkey, fun _ _ => .inr hkey⟩
      · refine ⟨hstore, fun heq => absurd heq hphase, ?_⟩
        rw [hkey]
        exact hack
    · rw [hR _ fun heq => hji (halone _ _ _ _ hhandler hi heq)]
      exact h.busy j hj hhandler

theorem Right.acknowledge (h : Right store handlers acked R) (halone : Alone handlers)
    (hi : handlers i = some ⟨m, previous, .committed⟩) :
    Right store (update handlers i none) (update acked m.key (some m.entry)) R := by
  obtain ⟨hstore, hcommitted, -⟩ := h.busy i _ hi
  refine ⟨fun k hk => ?_, fun j hj hhandler => ?_⟩
  · by_cases hkey : k = m.key
    · subst hkey
      refine ⟨(hcommitted rfl).trans hstore.symm, fun e he => ?_⟩
      rw [update_self] at he
      exact hstore.trans (Option.some.inj he)
    · rw [update_of_ne hkey]
      refine h.idle k fun j hj hhandler => ?_
      by_cases hji : j = i
      · subst hji
        cases hi.symm.trans hhandler
        exact symm hkey
      · exact hk j hj (by rwa [update_of_ne hji])
  · rcases handler_update hhandler with ⟨-, hnew⟩ | ⟨hji, hhandler⟩
    · cases hnew
    · rw [update_of_ne fun heq => hji (halone _ _ _ _ hhandler hi heq)]
      exact h.busy j hj hhandler

theorem Right.save {snapshot : EntryKey → Option Entry} {l : List Mutation}
    (h : Right store handlers acked (l.foldl Mutation.apply snapshot)) (l' : List Mutation)
    (hl : l' = l ∨ l' = []) : Right store handlers acked (l'.foldl Mutation.apply store) := by
  have hcases (k : EntryKey) : l'.foldl Mutation.apply store k = l.foldl Mutation.apply snapshot k ∨
      l'.foldl Mutation.apply store k = store k := by
    rcases hl with rfl | rfl
    · exact (foldl_apply_cases l' k).imp (fun heq => heq _ _) (fun heq => heq _)
    · exact .inr rfl
  refine ⟨fun k hk => ⟨?_, (h.idle k hk).2⟩, fun j hj hhandler => ?_⟩
  · exact (hcases k).elim (fun heq => heq.trans (h.idle k hk).1) id
  obtain ⟨hstore, hcommitted, hack⟩ := h.busy j hj hhandler
  rcases hcases hj.mutation.key with heq | heq
  · rw [heq]
    exact ⟨hstore, hcommitted, hack⟩
  · rw [heq]
    exact ⟨hstore, fun _ => hstore, fun _ _ => .inr hstore⟩

theorem Alone.update (h : Alone handlers) {o : Option Handler}
    (ho : ∀ x, o = some x → ∀ j h', j ≠ i → handlers j = some h' →
      x.mutation.key ≠ h'.mutation.key) : Alone (update handlers i o) := by
  intro a b x y hx hy hkey
  rcases handler_update hx with ⟨ha, hx⟩ | ⟨ha, hx⟩ <;>
    rcases handler_update hy with ⟨hb, hy⟩ | ⟨hb, hy⟩
  · exact ha.trans hb.symm
  · exact absurd hkey (ho x hx b y hb hy)
  · exact absurd hkey.symm (ho y hy a x ha hx)
  · exact h a b x y hx hy hkey

end

namespace LogServer

variable {s : LogServer} {owner : EntryKey → Bytes}

structure Invariant (owner : EntryKey → Bytes) (s : LogServer) : Prop where
  alone : Alone s.handlers
  right : ∃ (prepared : Nat → Option Mutation) (l : List Mutation),
    replayRecords collect { store := [] } s.wal = .ok ⟨prepared, l⟩ ∧
    (∀ m ∈ l, m.Fits owner s.store.embeddingDim) ∧
    Right s.store.entries s.handlers s.acknowledged (l.foldl Mutation.apply s.snapshot.entries) ∧
    ∀ i h tx, s.handlers i = some h → h.phase = .prepared tx →
      prepared tx = some h.mutation ∧ tx < s.txCounter
  saved : s.saved = true → Right s.store.entries s.handlers s.acknowledged s.snapshot.entries ∧
    ∀ i h tx, s.handlers i = some h → h.phase ≠ .prepared tx
  fits : ∀ i h, s.handlers i = some h → h.mutation.Fits owner s.store.embeddingDim
  store : s.store.Ready owner s.store.embeddingDim
  snapshot : s.snapshot.Ready owner s.store.embeddingDim

/-- The entry that a handler reads again is its own. -/
theorem Invariant.payload (h : s.Invariant owner) {i : Nat} {x : Handler}
    (hi : s.handlers i = some x) : s.payload x.mutation = some x.mutation := by
  obtain ⟨_, _, _, _, hright, _⟩ := h.right
  have hstore := (hright.busy i x hi).1
  have howned := (h.fits i x hi).owned
  cases hm : x.mutation with
  | delete key tenantId => rfl
  | put e =>
    rw [hm] at hstore howned
    have hget : s.store.get e.key e.tenantId = s.store.entries e.key :=
      h.store.get_eq (.inl (howned.resolve_right nofun))
    rw [LogServer.payload, hget]
    exact congrArg (Option.map Mutation.put) hstore

/-- A refused request leaves the entries, and maybe a dimension. -/
theorem Invariant.refused (h : s.Invariant owner) {store : Shelf}
    (hentries : store.entries = s.store.entries)
    (hdim : s.store.embeddingDim = 0 ∨ store.embeddingDim = s.store.embeddingDim) :
    ({ s with store } : LogServer).Invariant owner := by
  obtain ⟨prepared, l, hreplay, hl, hright, hprepared⟩ := h.right
  refine ⟨h.alone, ⟨prepared, l, hreplay, fun m hm => (hl m hm).grow hdim, ?_, hprepared⟩, ?_,
    fun i x hi => (h.fits i x hi).grow hdim, ⟨?_, .inr rfl⟩, h.snapshot.grow hdim⟩
  · show Right store.entries ..
    rw [hentries]
    exact hright
  · show _ → Right store.entries .. ∧ _
    rw [hentries]
    exact h.saved
  · show ∀ k e, store.entries k = some e → _
    rw [hentries]
    exact h.store.owned

theorem Invariant.change (h : s.Invariant owner) {i : Nat} {m : Mutation} {store : Shelf}
    {previous : Option Entry} (hi : s.handlers i = none)
    (hfree : ∀ j x, s.handlers j = some x → x.mutation.key ≠ m.key)
    (hentries : store.entries = m.apply s.store.entries)
    (hdim : s.store.embeddingDim = 0 ∨ store.embeddingDim = s.store.embeddingDim)
    (hm : m.Fits owner store.embeddingDim) :
    ({ s with store, handlers := update s.handlers i (some ⟨m, previous, .changed⟩) } :
      LogServer).Invariant owner := by
  obtain ⟨prepared, l, hreplay, hl, hright, hprepared⟩ := h.right
  refine ⟨h.alone.update fun x hx j h' _ hj => ?_, ⟨prepared, l, hreplay,
    fun m hm => (hl m hm).grow hdim, ?_, fun j x tx hx hphase => ?_⟩, fun hsaved => ⟨?_,
    fun j x tx hx hphase => ?_⟩, fun j x hx => ?_, ⟨?_, .inr rfl⟩, h.snapshot.grow hdim⟩
  · cases hx
    exact (hfree j h' hj).symm
  · show Right store.entries ..
    rw [hentries]
    exact hright.change hfree hi
  · rcases handler_update hx with ⟨-, hx⟩ | ⟨-, hx⟩
    · cases hx
      cases hphase
    · exact hprepared j x tx hx hphase
  · show Right store.entries ..
    rw [hentries]
    exact (h.saved hsaved).1.change hfree hi
  · rcases handler_update hx with ⟨-, hx⟩ | ⟨-, hx⟩
    · cases hx
      cases hphase
    · exact (h.saved hsaved).2 j x tx hx hphase
  · rcases handler_update hx with ⟨-, hx⟩ | ⟨-, hx⟩
    · cases hx
      exact hm
    · exact (h.fits j x hx).grow hdim
  · show ∀ k e, store.entries k = some e → _
    rw [hentries]
    exact owned_update h.store.owned hm.owned

theorem Invariant.moved_fits (h : s.Invariant owner) {i j : Nat} {m : Mutation}
    {previous : Option Entry} {phase phase' : Phase} {x : Handler}
    (hi : s.handlers i = some ⟨m, previous, phase⟩)
    (hx : update s.handlers i (some ⟨m, previous, phase'⟩) j = some x) :
    x.mutation.Fits owner s.store.embeddingDim := by
  rcases handler_update hx with ⟨-, hx⟩ | ⟨-, hx⟩
  · cases hx
    show m.Fits ..
    exact h.fits i _ hi
  · exact h.fits j x hx

theorem Invariant.step (h : s.Invariant owner) {e : LogEvent} (hapart : s.Apart owner e) :
    (s.step e).Invariant owner := by
  obtain ⟨prepared, l, hreplay, hl, hright, hprepared⟩ := h.right
  cases e with
  | change i m =>
    obtain ⟨hdim, hrequest⟩ := h.store.request hapart.1
    simp only [LogServer.step]
    split
    · exact h
    rename_i hi
    rcases hm : m.request s.store with ⟨accepted, store⟩
    rw [hm] at hdim hrequest
    rcases hrequest with ⟨rfl, hentries⟩ | ⟨rfl, hentries, hfits⟩
    · exact h.refused hentries hdim
    · exact h.change hi hapart.2 hentries hdim hfits
  | prepare i =>
    simp only [LogServer.step]
    split
    next m previous hi =>
      split
      · exact h
      rename_i hsaved
      have hpayload : s.payload m = some m := h.payload hi
      simp only [hpayload]
      refine ⟨h.alone.update fun x hx j h' hji hj hkey => ?_,
        ⟨update prepared s.txCounter (some m), l, ?_, hl,
          hright.move h.alone hi (fun _ _ => rfl) (.inr ⟨nofun, rfl⟩), fun j x tx hx hphase => ?_⟩,
        fun h => absurd h hsaved, fun j x hx => h.moved_fits hi hx, h.store, h.snapshot⟩
      · cases hx
        exact hji (h.alone j i h' _ hj hi hkey.symm)
      · rw [replayRecords_append, hreplay]
        rfl
      rcases handler_update hx with ⟨-, hx⟩ | ⟨-, hx⟩
      · cases hx
        cases hphase
        exact ⟨update_self .., Nat.lt_succ_self _⟩
      · obtain ⟨hp, hlt⟩ := hprepared j x tx hx hphase
        exact ⟨(update_of_ne (Nat.ne_of_lt hlt) ..).trans hp, Nat.lt_succ_of_lt hlt⟩
    · exact h
  | commit i =>
    simp only [LogServer.step]
    split
    next m previous tx hi =>
      split
      · exact h
      rename_i hsaved
      have htx := (hprepared i _ tx hi rfl).1
      refine ⟨h.alone.update fun x hx j h' hji hj hkey => ?_, ⟨update prepared tx none,
        l ++ [m], ?_, fun m' hm' => ?_, ?_, fun j x tx' hx hphase => ?_⟩, fun h => absurd h hsaved,
        fun j x hx => h.moved_fits hi hx, h.store, h.snapshot⟩
      · cases hx
        exact hji (h.alone j i h' _ hj hi hkey.symm)
      · rw [replayRecords_append, hreplay]
        simp only [Except.bind, Replay.next, htx]
        rfl
      · rcases mem_append.mp hm' with hm' | hm'
        · exact hl m' hm'
        · rw [mem_singleton.mp hm']
          exact h.fits i _ hi
      · rw [foldl_append]
        exact hright.move h.alone hi (fun k hk => update_of_ne hk ..) (.inl (update_self ..))
      rcases handler_update hx with ⟨-, hx⟩ | ⟨hji, hx⟩
      · cases hx
        cases hphase
      · obtain ⟨hp, hlt⟩ := hprepared j x tx' hx hphase
        -- Another handler with this number would be one of the same key.
        have hne : tx' ≠ tx := fun heq => hji <| h.alone j i x _ hx hi <|
          congrArg _ (Option.some.inj (hp.symm.trans (heq ▸ htx)))
        exact ⟨(update_of_ne hne ..).trans hp, hlt⟩
    · exact h
  | acknowledge i =>
    simp only [LogServer.step]
    split
    next m previous hi =>
      have hkept (j : Nat) (x : Handler)
          (hx : update s.handlers i none j = some x) : s.handlers j = some x :=
        (handler_update hx).elim (fun h => nomatch h.2) And.right
      exact ⟨h.alone.update nofun, ⟨prepared, l, hreplay, hl, hright.acknowledge h.alone hi,
        fun j x tx hx => hprepared j x tx (hkept j x hx)⟩,
        fun hsaved => ⟨(h.saved hsaved).1.acknowledge h.alone hi,
          fun j x tx hx => (h.saved hsaved).2 j x tx (hkept j x hx)⟩,
        fun j x hx => h.fits j x (hkept j x hx), h.store, h.snapshot⟩
    · exact h
  | saveSnapshot =>
    simp only [LogServer.step]
    split
    · exact h
    · exact ⟨h.alone, ⟨prepared, l, hreplay, hl, hright.save l (.inl rfl), hprepared⟩,
        fun _ => ⟨hright.save [] (.inr rfl), hapart⟩, h.fits, h.store, h.store⟩
  | removeWal =>
    simp only [LogServer.step]
    split
    next hsaved =>
      obtain ⟨hsnapshot, hnone⟩ := h.saved hsaved
      exact ⟨h.alone, ⟨fun _ => none, [], rfl, nofun, hsnapshot,
        fun j x tx hx hphase => absurd hphase (hnone j x tx hx)⟩, nofun, h.fits, h.store,
        h.snapshot⟩
    · exact h

theorem Invariant.recovers (h : s.Invariant owner) (now : Int64) : s.Recovers 0 now := by
  obtain ⟨prepared, l, hreplay, hl, hright, -⟩ := h.right
  obtain ⟨b, hb, -, hentries⟩ := h.snapshot.foldlM_replay now hl
  refine ⟨b, by rw [replayWal, replayRecords_eq _ _ hreplay, hb]; rfl, fun k e he => ?_⟩
  rw [hentries]
  by_cases hbusy : ∃ i x, s.handlers i = some x ∧ x.mutation.key = k
  · obtain ⟨i, x, hi, rfl⟩ := hbusy
    exact ((hright.busy i x hi).2.2 e he).imp (congrArg _) fun heq =>
      ⟨i, x, hi, rfl, congrArg _ heq⟩
  · push Not at hbusy
    obtain ⟨hR, hack⟩ := hright.idle k hbusy
    exact .inl (congrArg _ (hR.trans (hack e he)))

theorem invariant_start : ({} : LogServer).Invariant owner where
  alone _ _ _ _ h := nomatch h
  right := ⟨fun _ => none, [], rfl, nofun, ⟨fun _ _ => ⟨rfl, nofun⟩, fun _ _ h => nomatch h⟩,
    fun _ _ _ h => nomatch h⟩
  saved := nofun
  fits _ _ h := nomatch h
  store := ⟨nofun, .inl rfl⟩
  snapshot := ⟨nofun, .inl rfl⟩

end LogServer

def memoryOf (tenant : String) : Entry :=
  .memory { memoryId := ascii "x", tenantId := ascii tenant, content := ascii "hello" }

/-- A put, a delete and another put of one memory, and a crash after its snapshot is saved. -/
def putAgain (first second : String) : List LogEvent :=
  [.change 0 (.put (memoryOf first)), .prepare 0, .commit 0, .acknowledge 0,
    .change 0 (.delete (memoryOf first).key (ascii first)), .prepare 0, .commit 0, .acknowledge 0,
    .change 0 (.put (memoryOf second)), .prepare 0, .commit 0, .acknowledge 0, .saveSnapshot]

end Zepto.Ai
