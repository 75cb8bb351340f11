import Mathlib.Algebra.Order.Group.Multiset
import Zepto.Lib.Machine

/-!
# The WAL replicator

Producers put messages into `queue`; the send thread swaps the queue out, sends the batch to every
replica and keeps a batch that failed somewhere in `retryQueue`. A retry goes through the replicas
from the first one on until one takes the batch. The answers of the replicas come with the event.
Three fields are not in the source: `failed` of an entry, `ledger` and `retries` record which
replicas a batch has not reached, what was counted where, and where retries went.
-/

namespace Zepto.Cluster

open Zepto.Lib

structure ReplicatorConfig where
  queueCapacity : Nat := 1048576
  quorumW : Nat := 0
  retryQueueCapacity : Nat := 65536
  maxRetries : Nat := 3
  backpressure : Bool := false

structure ReplicatorStats where
  enqueued : Nat := 0
  replicated : Nat := 0
  dropped : Nat := 0
  sendErrors : Nat := 0
  syncAcked : Nat := 0
  retried : Nat := 0
  retryExhausted : Nat := 0
  backpressured : Nat := 0
  deriving DecidableEq

/-- The counters of messages that are given up. -/
inductive LossCounter where
  | dropped
  | sendErrors
  | retryExhausted
  deriving DecidableEq

def ReplicatorStats.value (stats : ReplicatorStats) : LossCounter → Nat
  | .dropped => stats.dropped
  | .sendErrors => stats.sendErrors
  | .retryExhausted => stats.retryExhausted

structure RetryEntry (μ : Type*) where
  batch : List μ
  attempts : Nat := 0
  /-- The replicas whose send failed. -/
  failed : List Nat

/-- Messages that a counter accounts for, and the replicas that do not get them. -/
structure Loss (μ : Type*) where
  counter : LossCounter
  batch : List μ
  replicas : List Nat

inductive SendPhase (μ : Type*) where
  /-- No thread: not started, or `stop` has returned. -/
  | stopped
  /-- At the head of the loop. -/
  | waiting
  | flushing (batch : List μ)
  | retrying
  /-- The loop has ended; `stop` has joined the thread. -/
  | exited

structure Replicator (μ : Type*) where
  config : ReplicatorConfig
  replicaCount : Nat
  stats : ReplicatorStats := {}
  queue : List μ := []
  retryQueue : List (RetryEntry μ) := []
  flushEpoch : Nat := 0
  running : Bool := false
  phase : SendPhase μ := .stopped
  /-- The messages of all calls of `enqueue` that have returned. -/
  offered : Multiset μ := 0
  /-- What each replica has got. -/
  received : Nat → List μ := fun _ => []
  ledger : List (Loss μ) := []
  /-- The target of each retried send and the replicas that had not got the batch. -/
  retries : List (Nat × List Nat) := []

inductive ReplicatorEvent (μ : Type*) where
  | start
  /-- A call of `enqueue` comes to its end; `waited` if it had found the queue full and blocked. -/
  | enqueue (msg : μ) (waited : Bool)
  /-- The send thread wakes up and swaps the queue out. -/
  | swap
  | flush (ok : Nat → Bool)
  /-- `ok k i`: replica `i` takes the `k`-th batch of the retry queue. -/
  | retry (ok : Nat → Nat → Bool)
  | stop
  | exit
  /-- `stop` sends what is left. -/
  | flushRemaining (ok : Nat → Bool)

namespace Replicator

variable {μ : Type*}

def push (s : Replicator μ) (msg : μ) : Replicator μ :=
  { s with
    queue := s.queue ++ [msg]
    offered := s.offered + {msg}
    stats := { s.stats with enqueued := s.stats.enqueued + 1 } }

def drop (s : Replicator μ) (msg : μ) : Replicator μ :=
  { s with
    offered := s.offered + {msg}
    stats := { s.stats with dropped := s.stats.dropped + 1 }
    ledger := s.ledger ++ [⟨.dropped, [msg], .range s.replicaCount⟩] }

/-- `enqueue(msg)`, at the time it returns. -/
def enqueue (s : Replicator μ) (msg : μ) (waited : Bool) : Replicator μ :=
  if waited ∧ s.config.backpressure then
    let s := { s with stats := { s.stats with backpressured := s.stats.backpressured + 1 } }
    if s.queue.length < s.config.queueCapacity ∧ s.running then s.push msg else s.drop msg
  else if s.config.queueCapacity ≤ s.queue.length then
    if s.config.backpressure then s else s.drop msg
  else s.push msg

/-- `flush_batch(batch)`; `ok` says which replicas take it. -/
def flushBatch (s : Replicator μ) (batch : List μ) (ok : Nat → Bool) : Replicator μ :=
  let acked := (List.range s.replicaCount).filter ok
  let failed := (List.range s.replicaCount).filter fun i => !ok i
  let required := if 0 < s.config.quorumW then s.config.quorumW else s.replicaCount
  let s := { s with
    received := fun i => if i ∈ acked then s.received i ++ batch else s.received i
    flushEpoch := s.flushEpoch + 1
    stats := { s.stats with
      replicated := s.stats.replicated + acked.length * batch.length
      sendErrors := s.stats.sendErrors + failed.length
      syncAcked := if required ≤ acked.length then s.stats.syncAcked + 1 else s.stats.syncAcked } }
  if failed = [] then s
  else if s.config.maxRetries = 0 then
    { s with ledger := s.ledger ++ [⟨.sendErrors, batch, failed⟩] }
  else if s.retryQueue.length < s.config.retryQueueCapacity then
    { s with retryQueue := s.retryQueue ++ [⟨batch, 0, failed⟩] }
  else
    { s with
      stats := { s.stats with retryExhausted := s.stats.retryExhausted + 1 }
      ledger := s.ledger ++ [⟨.retryExhausted, batch, failed⟩] }

/-- The replicas a retry tries: up to the first that takes the batch. -/
def tried (n : Nat) (ok : Nat → Bool) : List Nat :=
  (List.range n).takeWhile (fun i => !ok i) ++ ((List.range n).find? ok).toList

/-- One entry of `process_retry_queue`, which comes back to be tried again. -/
def retryEntry (s : Replicator μ) (e : RetryEntry μ) (ok : Nat → Bool) :
    Replicator μ × Option (RetryEntry μ) :=
  let s := { s with
    retries := s.retries ++ (tried s.replicaCount ok).map fun i => (i, e.failed) }
  match (List.range s.replicaCount).find? ok with
  | some j =>
    ({ s with
        received := fun i => if i = j then s.received i ++ e.batch else s.received i
        stats := { s.stats with
          replicated := s.stats.replicated + e.batch.length
          retried := s.stats.retried + 1 } }, none)
  | none =>
    if e.attempts + 1 < s.config.maxRetries then (s, some { e with attempts := e.attempts + 1 })
    else
      ({ s with
          stats := { s.stats with retryExhausted := s.stats.retryExhausted + 1 }
          ledger := s.ledger ++ [⟨.retryExhausted, e.batch, e.failed⟩] }, none)

def retryAll (s : Replicator μ) :
    List (RetryEntry μ) → (Nat → Nat → Bool) → Replicator μ × List (RetryEntry μ)
  | [], _ => (s, [])
  | e :: es, ok =>
    let (s, still) := s.retryEntry e (ok 0)
    let (s, rest) := s.retryAll es fun k => ok (k + 1)
    (s, still.toList ++ rest)

/-- Put the entries that failed again back, as far as there is room. -/
def requeue (s : Replicator μ) (still : List (RetryEntry μ)) : Replicator μ :=
  still.foldl (fun s e =>
    if s.retryQueue.length < s.config.retryQueueCapacity then
      { s with retryQueue := s.retryQueue ++ [e] }
    else s) s

def processRetryQueue (s : Replicator μ) (ok : Nat → Nat → Bool) : Replicator μ :=
  let (s', still) := { s with retryQueue := [] }.retryAll s.retryQueue ok
  s'.requeue still

def next (s : Replicator μ) : ReplicatorEvent μ → Replicator μ
  | .start =>
    match s.phase with
    | .stopped => { s with running := true, phase := .waiting }
    | _ => s
  | .enqueue msg waited => s.enqueue msg waited
  | .swap =>
    match s.phase with
    | .waiting =>
      if s.running ∧ ¬(s.queue = [] ∧ s.retryQueue.isEmpty) then
        { s with phase := .flushing s.queue, queue := [] }
      else s
    | _ => s
  | .flush ok =>
    match s.phase with
    | .flushing batch =>
      -- An empty batch is not sent.
      if batch = [] then { s with phase := .retrying }
      else { s.flushBatch batch ok with phase := .retrying }
    | _ => s
  | .retry ok =>
    match s.phase with
    | .retrying => { s.processRetryQueue ok with phase := .waiting }
    | _ => s
  | .stop => { s with running := false }
  | .exit =>
    match s.phase with
    | .waiting => if s.running then s else { s with phase := .exited }
    | _ => s
  | .flushRemaining ok =>
    match s.phase with
    | .exited =>
      if s.queue = [] then { s with phase := .stopped }
      else { { s with queue := [] }.flushBatch s.queue ok with phase := .stopped }
    | _ => s

/-- A replicator for `n` replicas that was just constructed. -/
def new (config : ReplicatorConfig) (n : Nat) : Replicator μ := { config, replicaCount := n }

end Replicator

def walReplicator {μ : Type*} : Machine (Replicator μ) (ReplicatorEvent μ) Unit where
  step s e := ((), s.next e)

end Zepto.Cluster
