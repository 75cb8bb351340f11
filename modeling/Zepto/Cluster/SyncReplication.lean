import Zepto.Cluster.Replication

/-!
# Synchronous replication

With `sync_mode` a call of `enqueue` does not return before the counter of flushes has passed the
value it had when the message was queued. `sends` records every batch that went to a replica; the
code does not read it. A call can return although its message is not on enough replicas: the flush
of the batch before also counts, a flush counts without a quorum, and a replica acknowledges a batch
when it applied one message of it. Nothing else goes wrong (`sync_replicated`).
-/

namespace Zepto.Cluster

open List Zepto.Lib Replicator

variable {μ : Type}

structure WalExchange where
  /-- The request gets to the replica. -/
  reached : Bool
  /-- The replica rejects the epoch of the request. -/
  fenced : Bool
  /-- `ingest_tick` takes the message at this position of the batch. -/
  takes : Nat → Bool
  /-- The callback throws after it has gone through the batch. -/
  throws : Bool
  /-- The answer gets back. -/
  answered : Bool

namespace WalExchange

def applied (x : WalExchange) (batch : List μ) : List μ :=
  if x.reached && !x.fenced then (batch.zipIdx.filter fun mi => x.takes mi.2).map Prod.fst else []

/-- The status byte of the answer counts what the callback returns. -/
def status (x : WalExchange) (batch : List μ) : Bool :=
  !x.fenced && !x.throws && 0 < (x.applied batch).length

/-- What `replicate_wal` returns. -/
def acked (x : WalExchange) (batch : List μ) : Bool :=
  batch.isEmpty || (x.reached && x.answered && x.status batch)

/-- The replica takes every message of a batch of this length, and says so. -/
def Complete (x : WalExchange) (n : Nat) : Prop :=
  x.reached = true ∧ x.fenced = false ∧ x.throws = false ∧ x.answered = true ∧
    ∀ k < n, x.takes k = true

instance (x : WalExchange) (n : Nat) : Decidable (x.Complete n) :=
  inferInstanceAs (Decidable (_ ∧ _ ∧ _ ∧ _ ∧ ∀ k < n, _))

/-- The replica takes all messages of a batch of this length or none. -/
def AllOrNone (x : WalExchange) (n : Nat) : Prop :=
  (∃ k < n, x.takes k = true) → ∀ k < n, x.takes k = true

instance (x : WalExchange) (n : Nat) : Decidable (x.AllOrNone n) :=
  inferInstanceAs (Decidable (_ → ∀ k < n, _))

end WalExchange

structure WalSend (μ : Type) where
  replica : Nat
  batch : List (Nat × μ)
  acked : Bool
  applied : List (Nat × μ)
  deriving DecidableEq

/-- A call of `enqueue` that waits for the flushes to pass `epochBefore`. -/
structure SyncWaiter where
  call : Nat
  epochBefore : Nat
  deriving DecidableEq

structure SyncReplicator (μ : Type) where
  replicator : Replicator (Nat × μ)
  /-- The number of calls so far. -/
  calls : Nat := 0
  waiters : List SyncWaiter := []
  /-- The calls that returned true before their timeout. -/
  returned : List Nat := []
  sends : List (WalSend μ) := []

inductive SyncEvent (μ : Type) where
  | start
  | enqueue (msg : μ) (waited : Bool)
  | swap
  | flush (x : Nat → WalExchange)
  | retry (x : Nat → Nat → WalExchange)
  | stop
  | exit
  | flushRemaining (x : Nat → WalExchange)
  /-- A waiter looks at the counter. -/
  | wake (call : Nat)
  /-- A waiter has waited for `sync_timeout_ms`. -/
  | timeout (call : Nat)

/-- `enqueue` queues the message. -/
def Replicator.accepts (s : Replicator μ) (waited : Bool) : Bool :=
  s.queue.length < s.config.queueCapacity &&
    (!(waited && s.config.backpressure) || s.running)

/-- The acknowledgements that `flush_batch` asks for. -/
def Replicator.required (s : Replicator μ) : Nat :=
  if 0 < s.config.quorumW then s.config.quorumW else s.replicaCount

namespace SyncReplicator

def sendTo (x : WalExchange) (batch : List (Nat × μ)) (i : Nat) : WalSend μ :=
  { replica := i, batch := batch, acked := x.acked batch, applied := x.applied batch }

def flushSends (n : Nat) (batch : List (Nat × μ)) (x : Nat → WalExchange) : List (WalSend μ) :=
  if batch.isEmpty then [] else (range n).map fun i => sendTo (x i) batch i

def retrySends (n : Nat) : List (RetryEntry (Nat × μ)) → (Nat → Nat → WalExchange) →
    List (WalSend μ)
  | [], _ => []
  | e :: es, x =>
    (tried n fun i => (x 0 i).acked e.batch).map (fun i => sendTo (x 0 i) e.batch i) ++
      retrySends n es fun k => x (k + 1)

def retryAnswers (entries : List (RetryEntry (Nat × μ))) (x : Nat → Nat → WalExchange)
    (k i : Nat) : Bool :=
  (x k i).acked (((entries[k]?).map RetryEntry.batch).getD [])

/-- `enqueue` in sync mode, until it waits. -/
def enqueue (y : SyncReplicator μ) (msg : μ) (waited : Bool) : SyncReplicator μ :=
  { y with
    replicator := y.replicator.next (.enqueue (y.calls, msg) waited)
    calls := y.calls + 1
    waiters := if y.replicator.accepts waited then
      y.waiters ++ [{ call := y.calls, epochBefore := y.replicator.flushEpoch }] else y.waiters }

def flush (y : SyncReplicator μ) (x : Nat → WalExchange) : SyncReplicator μ :=
  { y with
    replicator := y.replicator.next (.flush fun i => (x i).acked y.replicator.inHand)
    sends := y.sends ++ flushSends y.replicator.replicaCount y.replicator.inHand x }

def retry (y : SyncReplicator μ) (x : Nat → Nat → WalExchange) : SyncReplicator μ :=
  match y.replicator.phase with
  | .retrying =>
    { y with
      replicator := y.replicator.next (.retry (retryAnswers y.replicator.retryQueue x))
      sends := y.sends ++ retrySends y.replicator.replicaCount y.replicator.retryQueue x }
  | _ => y

def flushRemaining (y : SyncReplicator μ) (x : Nat → WalExchange) : SyncReplicator μ :=
  match y.replicator.phase with
  | .exited =>
    { y with
      replicator := y.replicator.next (.flushRemaining fun i => (x i).acked y.replicator.queue)
      sends := y.sends ++ flushSends y.replicator.replicaCount y.replicator.queue x }
  | _ => y

/-- The waiter's predicate: the counter has passed its value. -/
def woken (y : SyncReplicator μ) (w : SyncWaiter) : Bool :=
  w.epochBefore < y.replicator.flushEpoch

def wake (y : SyncReplicator μ) (call : Nat) : SyncReplicator μ :=
  { y with
    returned := y.returned ++
      (y.waiters.filter fun w => w.call = call && y.woken w).map SyncWaiter.call
    waiters := y.waiters.filter fun w => !(w.call = call && y.woken w) }

def timeout (y : SyncReplicator μ) (call : Nat) : SyncReplicator μ :=
  { y with waiters := y.waiters.filter fun w => w.call ≠ call }

def next (y : SyncReplicator μ) : SyncEvent μ → SyncReplicator μ
  | .start => { y with replicator := y.replicator.next .start }
  | .enqueue msg waited => y.enqueue msg waited
  | .swap => { y with replicator := y.replicator.next .swap }
  | .flush x => y.flush x
  | .retry x => y.retry x
  | .stop => { y with replicator := y.replicator.next .stop }
  | .exit => { y with replicator := y.replicator.next .exit }
  | .flushRemaining x => y.flushRemaining x
  | .wake call => y.wake call
  | .timeout call => y.timeout call

def new (config : ReplicatorConfig) (n : Nat) : SyncReplicator μ :=
  { replicator := .new config n }

/-- The replica has acknowledged a batch that it applied as a whole. -/
def HasWhole (y : SyncReplicator μ) (batch : List (Nat × μ)) (i : Nat) : Prop :=
  ∃ d ∈ y.sends, d.replica = i ∧ d.batch = batch ∧ d.acked = true ∧ d.applied = batch

/-- The batch of the call was sent, and enough replicas have acknowledged it. -/
def Acknowledged (y : SyncReplicator μ) (call : Nat) : Prop :=
  ∃ batch, call ∈ batch.map Prod.fst ∧ ∃ replicas : List Nat, replicas.Nodup ∧
    y.replicator.required ≤ replicas.length ∧
    ∀ i ∈ replicas, i < y.replicator.replicaCount ∧ y.HasWhole batch i

/-- Every call that returned true in time has its message on enough replicas, and an acknowledged
batch was applied as a whole. -/
structure Replicated (y : SyncReplicator μ) : Prop where
  returned : ∀ call ∈ y.returned, y.Acknowledged call
  applied : ∀ d ∈ y.sends, d.acked = true → d.applied = d.batch

/-- Enough replicas take the whole batch, and none takes a part of it. -/
def TakenBy (y : SyncReplicator μ) (batch : List (Nat × μ)) (x : Nat → WalExchange) : Prop :=
  batch ≠ [] →
    y.replicator.required ≤ ((range y.replicator.replicaCount).filter fun i =>
      (x i).Complete batch.length).length ∧
    ∀ i < y.replicator.replicaCount, (x i).AllOrNone batch.length

/-- No call comes while a batch is sent; enough replicas take each batch, none a part of it. -/
def Safe (y : SyncReplicator μ) : SyncEvent μ → Prop
  | .enqueue _ _ => y.replicator.inHand = []
  | .flush x => y.TakenBy y.replicator.inHand x
  | .flushRemaining x => y.TakenBy y.replicator.queue x
  | .retry x => ∀ k e, y.replicator.retryQueue[k]? = some e →
    ∀ i < y.replicator.replicaCount, (x k i).AllOrNone e.batch.length
  | _ => True

end SyncReplicator

def syncReplicator : Machine (SyncReplicator μ) (SyncEvent μ) Unit where
  step y e := ((), y.next e)

/-! ## What a replica applies -/

namespace WalExchange

variable {x : WalExchange} {batch : List μ}

theorem filter_zipIdx_eq (h : ∀ k < batch.length, x.takes k) :
    (batch.zipIdx.filter fun mi => x.takes mi.2) = batch.zipIdx := by
  rw [filter_eq_self]
  intro mi hmi
  exact h _ (snd_lt_of_mem_zipIdx hmi)

theorem Complete.applied_eq (h : x.Complete batch.length) : x.applied batch = batch := by
  obtain ⟨hr, hf, -, -, htakes⟩ := h
  rw [applied, hr, hf, filter_zipIdx_eq htakes]
  exact zipIdx_map_fst 0 batch

theorem Complete.acked_eq (h : x.Complete batch.length) : x.acked batch := by
  cases batch with
  | nil => rfl
  | cons m batch =>
    have happlied := h.applied_eq
    obtain ⟨hr, hf, ht, ha, -⟩ := h
    simp [acked, status, hr, hf, ht, ha, happlied]

/-- A replica that takes all or nothing acknowledges whole batches. -/
theorem applied_of_acked (hx : x.AllOrNone batch.length) (h : x.acked batch) :
    x.applied batch = batch := by
  by_cases hb : batch = []
  · subst hb
    unfold applied
    split <;> rfl
  have hempty : batch.isEmpty = false := by simpa using hb
  simp only [acked, hempty, Bool.false_or, Bool.and_eq_true, status, decide_eq_true_eq] at h
  obtain ⟨⟨hr, -⟩, ⟨hf, -⟩, hpos⟩ := h
  rw [applied, hr, hf] at hpos ⊢
  -- One message was taken, so that all were.
  have htakes : ∀ k < batch.length, x.takes k := by
    obtain ⟨m, hm⟩ := exists_mem_of_length_pos hpos
    obtain ⟨mi, hmi, -⟩ := mem_map.mp hm
    rw [mem_filter] at hmi
    exact hx ⟨mi.2, snd_lt_of_mem_zipIdx hmi.1, hmi.2⟩
  rw [filter_zipIdx_eq htakes]
  exact zipIdx_map_fst 0 batch

end WalExchange

/-! ## What the steps of the replicator do to the queue and the counter -/

namespace Replicator

/-- A step that leaves the queue and the counter of flushes alone. -/
structure Idle (s s' : Replicator μ) : Prop where
  config : s'.config = s.config
  replicaCount : s'.replicaCount = s.replicaCount
  queue : s'.queue = s.queue
  inHand : s'.inHand = s.inHand
  flushEpoch : s'.flushEpoch = s.flushEpoch

/-- A step that sends the batch: `rest` is what still waits in the queue. -/
structure Sends (s s' : Replicator μ) (rest : List μ) : Prop where
  config : s'.config = s.config
  replicaCount : s'.replicaCount = s.replicaCount
  queue : s'.queue = rest
  inHand : s'.inHand = []
  flushEpoch : s'.flushEpoch = s.flushEpoch + 1

variable {s : Replicator μ}

theorem Idle.refl (s : Replicator μ) : s.Idle s := ⟨rfl, rfl, rfl, rfl, rfl⟩

theorem next_start : s.Idle (s.next .start) := by
  unfold next
  cases hp : s.phase with
  | stopped => exact ⟨rfl, rfl, rfl, by simp [inHand, hp], rfl⟩
  | _ => exact .refl s

theorem next_exit : s.Idle (s.next .exit) := by
  unfold next
  cases hp : s.phase with
  | waiting =>
    dsimp only
    split
    · exact .refl s
    · exact ⟨rfl, rfl, rfl, by simp [inHand, hp], rfl⟩
  | _ => exact .refl s

theorem next_swap : let s' := s.next .swap
    s.Idle s' ∨ s.inHand = [] ∧ s'.inHand = s.queue ∧ s'.queue = [] ∧ s'.config = s.config ∧
      s'.replicaCount = s.replicaCount ∧ s'.flushEpoch = s.flushEpoch := by
  unfold next
  cases hp : s.phase with
  | waiting =>
    dsimp only
    split
    · exact .inr ⟨by simp [inHand, hp], rfl, rfl, rfl, rfl, rfl⟩
    · exact .inl (.refl s)
  | _ => exact .inl (.refl s)

theorem enqueue_cases (s : Replicator μ) (msg : μ) (waited : Bool) :
    (s.accepts waited ∧ ∃ stats, s.enqueue msg waited = { s with stats := stats }.push msg) ∨
    (s.accepts waited = false ∧ (s.enqueue msg waited = s ∨
      ∃ stats, s.enqueue msg waited = { s with stats := stats }.drop msg)) := by
  unfold enqueue accepts
  by_cases hw : waited ∧ s.config.backpressure
  · rw [if_pos hw]
    by_cases hroom : s.queue.length < s.config.queueCapacity ∧ s.running
    · exact .inl ⟨by simp [hroom], _, if_pos hroom⟩
    · refine .inr ⟨?_, .inr ⟨_, if_neg hroom⟩⟩
      simpa [hw] using hroom
  · rw [if_neg hw]
    have hnot : (waited && s.config.backpressure) = false := by simpa using hw
    by_cases hfull : s.config.queueCapacity ≤ s.queue.length
    · rw [if_pos hfull]
      refine .inr ⟨by simp [hfull], ?_⟩
      split
      · exact .inl rfl
      · exact .inr ⟨s.stats, rfl⟩
    · rw [if_neg hfull]
      have hroom : s.queue.length < s.config.queueCapacity := by omega
      exact .inl ⟨by simp [hnot, hroom], s.stats, rfl⟩

theorem next_enqueue (s : Replicator μ) (msg : μ) (waited : Bool) :
    let s' := s.next (.enqueue msg waited)
    s'.config = s.config ∧ s'.replicaCount = s.replicaCount ∧ s'.flushEpoch = s.flushEpoch ∧
      s'.inHand = s.inHand ∧
      s'.queue = if s.accepts waited then s.queue ++ [msg] else s.queue := by
  intro s'
  obtain ⟨hacc, stats, heq⟩ | ⟨hacc, heq | ⟨stats, heq⟩⟩ := s.enqueue_cases msg waited
  all_goals
    rw [show s' = _ from heq, hacc]
    exact ⟨rfl, rfl, rfl, rfl, rfl⟩

theorem flushBatch_frame (s : Replicator μ) (batch : List μ) (ok : Nat → Bool) :
    let s' := s.flushBatch batch ok
    s'.config = s.config ∧ s'.replicaCount = s.replicaCount ∧ s'.queue = s.queue ∧
      s'.flushEpoch = s.flushEpoch + 1 := by
  unfold flushBatch
  dsimp only
  split_ifs <;> exact ⟨rfl, rfl, rfl, rfl⟩

theorem next_flush (ok : Nat → Bool) : (s.inHand = [] ∧ s.Idle (s.next (.flush ok))) ∨
      (s.inHand ≠ [] ∧ s.Sends (s.next (.flush ok)) s.queue) := by
  unfold next
  cases hp : s.phase with
  | flushing batch =>
    have hhand : s.inHand = batch := by simp [inHand, hp]
    dsimp only
    split_ifs with hb
    · exact .inl ⟨hhand.trans hb, rfl, rfl, rfl, by rw [hhand, hb]; rfl, rfl⟩
    · obtain ⟨hconfig, hcount, hqueue, hepoch⟩ := s.flushBatch_frame batch ok
      exact .inr ⟨hhand ▸ hb, hconfig, hcount, hqueue, rfl, hepoch⟩
  | _ => exact .inl ⟨by simp [inHand, hp], .refl s⟩

theorem next_flushRemaining (ok : Nat → Bool) (hp : s.phase = .exited) :
    s.inHand = [] ∧ ((s.queue = [] ∧ s.Idle (s.next (.flushRemaining ok))) ∨
      (s.queue ≠ [] ∧ s.Sends (s.next (.flushRemaining ok)) [])) := by
  have hhand : s.inHand = [] := by simp [inHand, hp]
  refine ⟨hhand, ?_⟩
  unfold next
  rw [hp]
  dsimp only
  split_ifs with hq
  · exact .inl ⟨hq, rfl, rfl, rfl, hhand.symm, rfl⟩
  obtain ⟨hconfig, hcount, hqueue, hepoch⟩ := flushBatch_frame
    ({ s with queue := [], phase := .exited } : Replicator μ) s.queue ok
  exact .inr ⟨hq, hconfig, hcount, hqueue, rfl, hepoch⟩

structure Keeps (s s' : Replicator μ) : Prop where
  config : s'.config = s.config
  replicaCount : s'.replicaCount = s.replicaCount
  queue : s'.queue = s.queue
  flushEpoch : s'.flushEpoch = s.flushEpoch

theorem Keeps.trans {s1 s2 s3 : Replicator μ} (h : s1.Keeps s2) (h' : s2.Keeps s3) : s1.Keeps s3 :=
  ⟨h'.config.trans h.config, h'.replicaCount.trans h.replicaCount, h'.queue.trans h.queue,
    h'.flushEpoch.trans h.flushEpoch⟩

theorem keeps_retryAll (s : Replicator μ) (es : List (RetryEntry μ)) (ok : Nat → Nat → Bool) :
    s.Keeps (s.retryAll es ok).1 := by
  induction es generalizing s ok with
  | nil => exact ⟨rfl, rfl, rfl, rfl⟩
  | cons e es ih =>
    refine .trans ?_ (ih (s.retryEntry e (ok 0)).1 fun k => ok (k + 1))
    unfold retryEntry
    dsimp only
    split
    · exact ⟨rfl, rfl, rfl, rfl⟩
    · split <;> exact ⟨rfl, rfl, rfl, rfl⟩

theorem keeps_requeue (s : Replicator μ) (still : List (RetryEntry μ)) :
    s.Keeps (s.requeue still) := by
  unfold requeue
  induction still generalizing s with
  | nil => exact ⟨rfl, rfl, rfl, rfl⟩
  | cons e still ih =>
    rw [foldl_cons]
    refine .trans ?_ (ih _)
    split <;> exact ⟨rfl, rfl, rfl, rfl⟩

theorem next_retry (ok : Nat → Nat → Bool) (hp : s.phase = .retrying) :
    s.Idle (s.next (.retry ok)) := by
  have hkeeps := (keeps_retryAll { s with retryQueue := [] } s.retryQueue ok).trans
    (keeps_requeue _ ({ s with retryQueue := [] }.retryAll s.retryQueue ok).2)
  have hnext : s.next (.retry ok) = { s.processRetryQueue ok with phase := .waiting } := by
    unfold next
    rw [hp]
  rw [hnext]
  exact ⟨hkeeps.config, hkeeps.replicaCount, hkeeps.queue, by simp [inHand, hp], hkeeps.flushEpoch⟩

end Replicator

/-! ## Runs -/

namespace SyncReplicator

variable {y : SyncReplicator μ}

section

variable {y' : SyncReplicator μ} {call : Nat} {s : Replicator (Nat × μ)} {batch : List (Nat × μ)}
  {x : Nat → WalExchange} {n : Nat}

/-- A call that has not returned has its message waiting, with the counter where it was, or on
enough replicas. While a batch is sent the queue is empty. -/
structure Sound (y : SyncReplicator μ) : Prop where
  apart : y.replicator.inHand = [] ∨ y.replicator.queue = []
  waiting : ∀ w ∈ y.waiters,
    (w.call ∈ (y.replicator.queue ++ y.replicator.inHand).map Prod.fst ∧
      y.replicator.flushEpoch ≤ w.epochBefore) ∨ y.Acknowledged w.call
  replicated : y.Replicated

theorem Acknowledged.mono (h : y.Acknowledged call)
    (hc : y'.replicator.config = y.replicator.config)
    (hn : y'.replicator.replicaCount = y.replicator.replicaCount) (hs : y.sends ⊆ y'.sends) :
    y'.Acknowledged call := by
  obtain ⟨batch, hcall, replicas, hnodup, hle, hall⟩ := h
  refine ⟨batch, hcall, replicas, hnodup, ?_, fun i hi => ?_⟩
  · rw [required, hc, hn]
    exact hle
  · obtain ⟨hlt, d, hd, hwhole⟩ := hall i hi
    exact ⟨hn ▸ hlt, d, hs hd, hwhole⟩

/-- What waited still waits, with the counter where it was. -/
theorem Sound.keep (h : y.Sound) (hc : s.config = y.replicator.config)
    (hn : s.replicaCount = y.replicator.replicaCount)
    (he : s.flushEpoch = y.replicator.flushEpoch) (hs : s.inHand = [] ∨ s.queue = [])
    (hmem : y.replicator.queue ++ y.replicator.inHand ⊆ s.queue ++ s.inHand) :
    ({ y with replicator := s } : SyncReplicator μ).Sound := by
  refine ⟨hs, fun w hw => (h.waiting w hw).imp (fun hq => ⟨map_subset _ hmem hq.1, ?_⟩)
    fun ha => ha.mono hc hn fun _ h => h,
    fun call hcall => (h.replicated.returned call hcall).mono hc hn fun _ h => h,
    h.replicated.applied⟩
  exact he ▸ hq.2

theorem Sound.idle (h : y.Sound) (hs : y.replicator.Idle s) :
    ({ y with replicator := s } : SyncReplicator μ).Sound := by
  refine h.keep hs.config hs.replicaCount hs.flushEpoch ?_ ?_ <;> rw [hs.inHand, hs.queue]
  · exact h.apart
  · exact fun _ h => h

theorem Sound.swap (h : y.Sound) : (y.next .swap).Sound := by
  rcases y.replicator.next_swap with hidle | ⟨hempty, hhand, hqueue, hconfig, hcount, hepoch⟩
  · exact h.idle hidle
  refine h.keep hconfig hcount hepoch (.inr hqueue) ?_
  rw [hempty, hqueue, hhand, append_nil]
  exact fun _ h => h

theorem Sound.enqueue (h : y.Sound) (msg : μ) (waited : Bool) (he : y.replicator.inHand = []) :
    (y.enqueue msg waited).Sound := by
  obtain ⟨hconfig, hcount, hepoch, hhand, hqueue⟩ := y.replicator.next_enqueue (y.calls, msg) waited
  have hold := h.keep hconfig hcount hepoch (.inl (hhand.trans he)) (by
    rw [hqueue, hhand]
    split <;> simp)
  refine ⟨hold.apart, fun w hw => ?_, hold.replicated.returned, hold.replicated.applied⟩
  have hw' : w ∈ if y.replicator.accepts waited then
      y.waiters ++ [{ call := y.calls, epochBefore := y.replicator.flushEpoch }]
      else y.waiters := hw
  by_cases hacc : y.replicator.accepts waited
  · rw [if_pos hacc, mem_append, mem_singleton] at hw'
    rcases hw' with hw' | rfl
    · exact hold.waiting w hw'
    · rw [if_pos hacc] at hqueue
      refine .inl ⟨mem_map.mpr ⟨(y.calls, msg), mem_append_left _ ?_, rfl⟩, hepoch.le⟩
      exact hqueue ▸ mem_append_right _ mem_cons_self
  · rw [if_neg hacc] at hw'
    exact hold.waiting w hw'

/-- The sends of a flush that enough replicas take. -/
theorem TakenBy.acknowledged (h : y.TakenBy batch x)
    (hc : y'.replicator.config = y.replicator.config)
    (hn : y'.replicator.replicaCount = y.replicator.replicaCount)
    (hs : flushSends y.replicator.replicaCount batch x ⊆ y'.sends)
    (hcall : call ∈ batch.map Prod.fst) : y'.Acknowledged call := by
  have hb : batch ≠ [] := by
    rintro rfl
    cases hcall
  obtain ⟨hle, -⟩ := h hb
  refine ⟨batch, hcall, (range y.replicator.replicaCount).filter fun i =>
    (x i).Complete batch.length, nodup_range.filter _, ?_, fun i hi => ?_⟩
  · rw [required, hc, hn]
    exact hle
  rw [mem_filter, mem_range, decide_eq_true_eq] at hi
  refine ⟨hn ▸ hi.1, sendTo (x i) batch i, hs ?_, rfl, rfl, hi.2.acked_eq, hi.2.applied_eq⟩
  rw [flushSends, if_neg (by simpa using hb)]
  exact mem_map_of_mem (mem_range.mpr hi.1)

theorem TakenBy.applied (h : y.TakenBy batch x) :
    ∀ d ∈ flushSends y.replicator.replicaCount batch x, d.acked → d.applied = d.batch := by
  intro d hd hacked
  unfold flushSends at hd
  split at hd
  · cases hd
  rename_i hb
  obtain ⟨i, hi, rfl⟩ := mem_map.mp hd
  have hne : batch ≠ [] := by simpa using hb
  exact WalExchange.applied_of_acked ((h hne).2 i (mem_range.mp hi)) hacked

/-- A batch is sent: its calls are acknowledged, and the counter goes up. No other message waits. -/
theorem Sound.send (h : y.Sound) (hx : y.TakenBy batch x) (hs : y.replicator.Sends s [])
    (hbatch : ∀ m ∈ y.replicator.queue ++ y.replicator.inHand, m ∈ batch) : ({ y with
      replicator := s
      sends := y.sends ++ flushSends y.replicator.replicaCount batch x } :
      SyncReplicator μ).Sound := by
  have hsub := subset_append_left y.sends (flushSends y.replicator.replicaCount batch x)
  refine ⟨.inl hs.inHand, fun w hw => .inr ?_, fun call hcall => ?_, fun d hd hacked => ?_⟩
  · rcases h.waiting w hw with ⟨hmem, -⟩ | ha
    · obtain ⟨m, hm, hcall⟩ := mem_map.mp hmem
      exact hx.acknowledged hs.config hs.replicaCount (subset_append_right _ _)
        (mem_map.mpr ⟨m, hbatch m hm, hcall⟩)
    · exact ha.mono hs.config hs.replicaCount hsub
  · exact (h.replicated.returned call hcall).mono hs.config hs.replicaCount hsub
  · rcases mem_append.mp hd with hd | hd
    · exact h.replicated.applied d hd hacked
    · exact hx.applied d hd hacked

theorem flushSends_nil (n : Nat) (x : Nat → WalExchange) :
    flushSends n ([] : List (Nat × μ)) x = [] := rfl

theorem Sound.flush (h : y.Sound) (hx : y.TakenBy y.replicator.inHand x) : (y.flush x).Sound := by
  unfold SyncReplicator.flush
  rcases y.replicator.next_flush fun i => (x i).acked y.replicator.inHand with
    ⟨hempty, hidle⟩ | ⟨hne, hsends⟩
  · rw [hempty, flushSends_nil, append_nil]
    rw [hempty] at hidle
    exact h.idle hidle
  have hqueue : y.replicator.queue = [] := h.apart.resolve_left hne
  rw [hqueue] at hsends
  refine h.send hx hsends fun m hm => ?_
  rw [hqueue] at hm
  exact hm

theorem Sound.flushRemaining (h : y.Sound) (hx : y.TakenBy y.replicator.queue x) :
    (y.flushRemaining x).Sound := by
  unfold SyncReplicator.flushRemaining
  split
  next hp =>
    obtain ⟨hhand, hcases⟩ := next_flushRemaining (fun i => (x i).acked y.replicator.queue) hp
    rcases hcases with ⟨hempty, hidle⟩ | ⟨-, hsends⟩
    · rw [hempty, flushSends_nil, append_nil]
      rw [hempty] at hidle
      exact h.idle hidle
    · refine h.send hx hsends fun m hm => ?_
      rw [hhand, append_nil] at hm
      exact hm
  · exact h

theorem mem_tried_lt {i : Nat} {ok : Nat → Bool} (h : i ∈ tried n ok) : i < n := by
  rcases mem_append.mp h with h | h
  · exact mem_range.mp ((takeWhile_sublist _).subset h)
  · exact mem_range.mp (mem_of_find?_eq_some (Option.mem_toList.mp h))

theorem applied_retrySends {es : List (RetryEntry (Nat × μ))} {x : Nat → Nat → WalExchange}
    (h : ∀ k e, es[k]? = some e → ∀ i < n, (x k i).AllOrNone e.batch.length) :
    ∀ d ∈ retrySends n es x, d.acked → d.applied = d.batch := by
  induction es generalizing x with
  | nil => exact nofun
  | cons e es ih =>
    intro d hd hacked
    rcases mem_append.mp hd with hd | hd
    · obtain ⟨i, hi, rfl⟩ := mem_map.mp hd
      exact WalExchange.applied_of_acked (h 0 e rfl i (mem_tried_lt hi)) hacked
    · exact ih (fun k e' hk => h (k + 1) e' hk) d hd hacked

theorem Sound.retry (h : y.Sound) {x : Nat → Nat → WalExchange}
    (hx : ∀ k e, y.replicator.retryQueue[k]? = some e →
      ∀ i < y.replicator.replicaCount, (x k i).AllOrNone e.batch.length) : (y.retry x).Sound := by
  unfold SyncReplicator.retry
  split
  next hp =>
    have hidle := h.idle (next_retry (retryAnswers y.replicator.retryQueue x) hp)
    have hsub := subset_append_left y.sends
      (retrySends y.replicator.replicaCount y.replicator.retryQueue x)
    refine ⟨hidle.apart, fun w hw => ?_, fun call hcall => ?_, fun d hd hacked => ?_⟩
    · exact (hidle.waiting w hw).imp_right fun ha => ha.mono rfl rfl hsub
    · exact (hidle.replicated.returned call hcall).mono rfl rfl hsub
    · rcases mem_append.mp hd with hd | hd
      · exact h.replicated.applied d hd hacked
      · exact applied_retrySends hx d hd hacked
  · exact h

/-- A call that returns has seen the counter pass; its message is not waiting any more. -/
theorem Sound.wake (h : y.Sound) (call : Nat) : (y.wake call).Sound := by
  refine ⟨h.apart, fun w hw => ?_, ⟨fun c hc => ?_, h.replicated.applied⟩⟩
  · exact h.waiting w (mem_of_mem_filter hw)
  rcases mem_append.mp hc with hc | hc
  · exact h.replicated.returned c hc
  obtain ⟨w, hw, rfl⟩ := mem_map.mp hc
  rw [mem_filter, Bool.and_eq_true, woken, decide_eq_true_eq, decide_eq_true_eq] at hw
  rcases h.waiting w hw.1 with ⟨-, hle⟩ | ha
  · omega
  · exact ha

theorem Sound.next (h : y.Sound) (e : SyncEvent μ) (he : y.Safe e) : (y.next e).Sound := by
  cases e with
  | start => exact h.idle next_start
  | enqueue msg waited => exact h.enqueue msg waited he
  | swap => exact h.swap
  | flush x => exact h.flush he
  | retry x => exact h.retry he
  | stop => exact h.idle ⟨rfl, rfl, rfl, rfl, rfl⟩
  | exit => exact h.idle next_exit
  | flushRemaining x => exact h.flushRemaining he
  | wake call => exact h.wake call
  | timeout call =>
    exact ⟨h.apart, fun w hw => h.waiting w (mem_of_mem_filter hw),
      ⟨h.replicated.returned, h.replicated.applied⟩⟩

theorem sound_new (config : ReplicatorConfig) (n : Nat) : (new config n : SyncReplicator μ).Sound :=
  ⟨.inl rfl, nofun, nofun, nofun⟩

end

end SyncReplicator

/-- If no call comes while a batch is sent, enough replicas take each batch and none takes a part, a
call that returns true in time has its message on enough replicas. -/
theorem sync_replicated (config : ReplicatorConfig) (n : Nat) (events : List (SyncEvent μ))
    (hevents : syncReplicator.Admits SyncReplicator.Safe (.new config n) events) :
    (syncReplicator.run (.new config n) events).Replicated :=
  (syncReplicator.invariant_admits (fun _ e h he => h.next e he)
    (SyncReplicator.sound_new config n) hevents).replicated

def takesAll : WalExchange :=
  { reached := true, fenced := false, takes := fun _ => true, throws := false, answered := true }

theorem one_call_replicated :
    (syncReplicator.run (.new {} 2) [.start, .enqueue 'a' false, .swap, .flush fun _ => takesAll,
      .wake 0]).returned = [0] ∧
    (syncReplicator.run (.new {} 2) [.start, .enqueue 'a' false, .swap, .flush fun _ => takesAll,
      .wake 0]).Replicated :=
  ⟨by decide, sync_replicated {} 2 _ ⟨trivial, rfl, trivial, fun _ => by decide, trivial, trivial⟩⟩

/-- The second call comes while the batch of the first is sent. That flush lets it return, and its
own message is still in the queue. -/
theorem call_returns_before_its_batch :
    let y := syncReplicator.run (.new {} 2) [.start, .enqueue 'a' false, .swap,
      .enqueue 'b' false, .flush fun _ => takesAll, .wake 1]
    y.returned = [1] ∧ y.replicator.queue = [(1, 'b')] ∧ ¬ y.Acknowledged 1 := by
  intro y
  have hsends : y.returned = [1] ∧ y.replicator.queue = [(1, 'b')] ∧
      y.replicator.required = 2 ∧ ∀ d ∈ y.sends, d.batch = [(0, 'a')] := by
    decide
  obtain ⟨hreturned, hqueue, hrequired, hbatch⟩ := hsends
  refine ⟨hreturned, hqueue, ?_⟩
  rintro ⟨batch, hcall, replicas, -, hle, hall⟩
  obtain ⟨i, hi⟩ := exists_mem_of_length_pos (l := replicas) (by omega)
  obtain ⟨-, d, hd, -, hdb, -⟩ := hall i hi
  rw [← hdb, hbatch d hd] at hcall
  exact absurd hcall (by decide)

end Zepto.Cluster
