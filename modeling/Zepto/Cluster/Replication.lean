import Mathlib.Algebra.BigOperators.Group.List.Basic
import Mathlib.Tactic.Abel
import Zepto.Cluster.WalReplicator

/-!
# Every message is accounted for

For each replica, the messages offered so far are those it has got, those that still wait for it and
those that a counter accounts for: `Accounted`. The retry loop breaks this: it stops at the first
replica that takes the batch, and that need not be one that failed. `replication_accounted` says
that nothing else does.
-/

namespace Zepto.Cluster

open Replicator List Zepto.Lib

namespace Replicator

variable {μ : Type*}

/-- The part of the batches that concerns replica `i`. -/
def shareOf (i : Nat) (parts : List (List Nat × List μ)) : Multiset μ :=
  (parts.map fun p => if i ∈ p.1 then (p.2 : Multiset μ) else 0).sum

/-- The messages of entries that replica `i` has not got. -/
def pendingFor (entries : List (RetryEntry μ)) (i : Nat) : Multiset μ :=
  shareOf i (entries.map fun e => (e.failed, e.batch))

def inHand (s : Replicator μ) : List μ :=
  match s.phase with
  | .flushing batch => batch
  | _ => []

/-- What still waits to be sent to replica `i`. -/
def waitingFor (s : Replicator μ) (i : Nat) : Multiset μ :=
  (s.queue : Multiset μ) + s.inHand + pendingFor s.retryQueue i

/-- What the counters account for at replica `i`. -/
def countedFor (ledger : List (Loss μ)) (i : Nat) : Multiset μ :=
  shareOf i (ledger.map fun l => (l.replicas, l.batch))

/-- Every message is sent, waiting or counted once for each replica, and retries go to replicas that
failed. -/
structure Accounted (s : Replicator μ) : Prop where
  messages : ∀ i < s.replicaCount,
    s.offered = (s.received i : Multiset μ) + s.waitingFor i + countedFor s.ledger i
  counters : ∀ c, (s.ledger.filter (·.counter = c)).length ≤ s.stats.value c
  retries : ∀ r ∈ s.retries, r.1 ∈ r.2

/-- The retry tries only replicas that failed, until none of these is left. -/
def OnlyFailed (n : Nat) (e : RetryEntry μ) (ok : Nat → Bool) : Prop :=
  (∀ i ∈ tried n ok, i ∈ e.failed) ∧
  ∀ j, (range n).find? ok = some j → ∀ i ∈ e.failed, i = j

def OnlyFailedAll (n : Nat) : List (RetryEntry μ) → (Nat → Nat → Bool) → Prop
  | [], _ => True
  | e :: es, ok => OnlyFailed n e (ok 0) ∧ OnlyFailedAll n es fun k => ok (k + 1)

/-- Retries go to exactly the replicas that failed. -/
def RetriesFailed (s : Replicator μ) : ReplicatorEvent μ → Prop
  | .retry ok => OnlyFailedAll s.replicaCount s.retryQueue ok
  | _ => True

@[simp]
theorem shareOf_nil (i : Nat) : shareOf i ([] : List (List Nat × List μ)) = 0 := rfl

theorem shareOf_cons (i : Nat) (p : List Nat × List μ) (parts : List (List Nat × List μ)) :
    shareOf i (p :: parts) = (if i ∈ p.1 then (p.2 : Multiset μ) else 0) + shareOf i parts :=
  sum_cons

theorem shareOf_append (i : Nat) (parts parts' : List (List Nat × List μ)) :
    shareOf i (parts ++ parts') = shareOf i parts + shareOf i parts' := by
  rw [shareOf, map_append, sum_append]
  rfl

theorem pendingFor_append (es es' : List (RetryEntry μ)) (i : Nat) :
    pendingFor (es ++ es') i = pendingFor es i + pendingFor es' i := by
  rw [pendingFor, map_append, shareOf_append]
  rfl

theorem pendingFor_singleton (e : RetryEntry μ) (i : Nat) :
    pendingFor [e] i = if i ∈ e.failed then (e.batch : Multiset μ) else 0 := by
  simp [pendingFor, shareOf_cons]

/-! ## The books -/

/-- For each replica, the messages offered are those it got, the queued, the counted and `owed`. -/
def Balance (s : Replicator μ) (owed : Nat → Multiset μ) : Prop :=
  ∀ i < s.replicaCount,
    s.offered = (s.received i : Multiset μ) + s.queue + owed i + countedFor s.ledger i

structure BooksOk (s : Replicator μ) : Prop where
  counters : ∀ c, (s.ledger.filter (·.counter = c)).length ≤ s.stats.value c
  retries : ∀ r ∈ s.retries, r.1 ∈ r.2

theorem countedFor_concat (ledger : List (Loss μ)) (l : Loss μ) (i : Nat) :
    countedFor (ledger ++ [l]) i =
      countedFor ledger i + if i ∈ l.replicas then (l.batch : Multiset μ) else 0 := by
  rw [countedFor, map_append, shareOf_append]
  simp [countedFor, shareOf_cons]

theorem counters_concat {ledger : List (Loss μ)} {stats stats' : ReplicatorStats} {l : Loss μ}
    (h : ∀ c, (ledger.filter (·.counter = c)).length ≤ stats.value c)
    (hle : ∀ c, stats.value c ≤ stats'.value c)
    (hlt : stats.value l.counter < stats'.value l.counter) (c : LossCounter) :
    ((ledger ++ [l]).filter (·.counter = c)).length ≤ stats'.value c := by
  rw [filter_append, length_append]
  have hc := h c
  have hlec := hle c
  by_cases heq : l.counter = c
  · subst heq
    simp only [filter_cons, decide_true, if_true, filter_nil, length_singleton]
    omega
  · simp only [filter_cons, heq, decide_false, Bool.false_eq_true, if_false, filter_nil, length_nil]
    omega

variable {s : Replicator μ} {owed : Nat → Multiset μ}

section

variable {n : Nat} {batch : List μ} {ok : Nat → Bool} {e : RetryEntry μ}

theorem Balance.congr (h : s.Balance owed) {owed' : Nat → Multiset μ}
    (heq : ∀ i, owed i = owed' i) : s.Balance owed' := by
  intro i hi
  rw [h i hi, heq]

theorem push_balance (h : s.Balance owed) (msg : μ) : (s.push msg).Balance owed := by
  intro i hi
  show s.offered + {msg} = (s.received i : Multiset μ) + (s.queue ++ [msg] : List μ) + owed i +
    countedFor s.ledger i
  rw [h i hi, ← Multiset.coe_add]
  abel

theorem drop_balance (h : s.Balance owed) (msg : μ) : (s.drop msg).Balance owed := by
  intro i hi
  have hmem : i ∈ range s.replicaCount := mem_range.mpr hi
  show s.offered + {msg} = (s.received i : Multiset μ) + (s.queue : Multiset μ) + owed i +
    countedFor (s.ledger ++ [_]) i
  rw [h i hi, countedFor_concat, if_pos hmem]
  abel

theorem drop_books (h : s.BooksOk) (msg : μ) : (s.drop msg).BooksOk := by
  refine ⟨counters_concat h.counters (fun c => ?_) ?_, h.retries⟩
  · cases c <;> simp [ReplicatorStats.value, drop]
  · exact Nat.lt_succ_self _

/-! ## Flushing -/

theorem mem_failed_iff {i : Nat} (hi : i < n) (ok : Nat → Bool) :
    i ∈ (range n).filter (fun i => !ok i) ↔ i ∉ (range n).filter ok := by
  simp [hi]

theorem flushBatch_balance (h : s.Balance fun i => batch + pendingFor s.retryQueue i)
    (ok : Nat → Bool) :
    (s.flushBatch batch ok).Balance (pendingFor (s.flushBatch batch ok).retryQueue) := by
  unfold flushBatch
  simp only
  -- What each replica gets, and what a part of the books for the failed ones has to hold.
  have hshare (i : Nat) (hi : i < s.replicaCount) : s.offered =
      ((if i ∈ (range s.replicaCount).filter ok then s.received i ++ batch else s.received i :
        List μ) : Multiset μ) + s.queue + pendingFor s.retryQueue i + countedFor s.ledger i +
      (if i ∈ (range s.replicaCount).filter (fun i => !ok i) then (batch : Multiset μ) else 0) := by
    refine (h i hi).trans ?_
    beta_reduce
    by_cases hok : i ∈ (range s.replicaCount).filter ok
    · rw [if_pos hok, if_neg fun hf => (mem_failed_iff hi ok).mp hf hok, ← Multiset.coe_add]
      abel
    · rw [if_neg hok, if_pos ((mem_failed_iff hi ok).mpr hok)]
      abel
  split
  next hnone =>
    intro i hi
    have hi := hshare i hi
    rw [hnone, if_neg not_mem_nil, add_zero] at hi
    exact hi
  split_ifs
  all_goals
    intro i hi
    refine (hshare i hi).trans ?_
    simp only [countedFor_concat, pendingFor_append, pendingFor_singleton]
    abel

theorem flushBatch_books (h : s.BooksOk) (batch : List μ) (ok : Nat → Bool) :
    (s.flushBatch batch ok).BooksOk := by
  unfold flushBatch
  simp only
  split
  · refine ⟨fun c => (h.counters c).trans ?_, h.retries⟩
    cases c <;> simp [ReplicatorStats.value]
  next hsome =>
    split
    · refine ⟨counters_concat h.counters (fun c => ?_) ?_, h.retries⟩
      · cases c <;> simp [ReplicatorStats.value]
      · exact Nat.lt_add_of_pos_right (length_pos_iff.mpr hsome)
    · split
      · refine ⟨fun c => (h.counters c).trans ?_, h.retries⟩
        cases c <;> simp [ReplicatorStats.value]
      · refine ⟨counters_concat h.counters (fun c => ?_) (Nat.lt_succ_self _), h.retries⟩
        cases c <;> simp [ReplicatorStats.value]

theorem flushBatch_room (h : s.retryQueue.length ≤ s.config.retryQueueCapacity) (batch : List μ)
    (ok : Nat → Bool) : (s.flushBatch batch ok).retryQueue.length ≤
      (s.flushBatch batch ok).config.retryQueueCapacity := by
  unfold flushBatch
  simp only
  split
  · exact h
  split
  · exact h
  split
  · rw [length_append]
    assumption
  · exact h

/-! ## Retrying -/

structure SameFrame (s s' : Replicator μ) : Prop where
  config : s'.config = s.config
  replicaCount : s'.replicaCount = s.replicaCount
  queue : s'.queue = s.queue
  retryQueue : s'.retryQueue = s.retryQueue

theorem retryEntry_frame (s : Replicator μ) (e : RetryEntry μ) (ok : Nat → Bool) :
    SameFrame s (s.retryEntry e ok).1 := by
  unfold retryEntry
  simp only
  split
  · exact ⟨rfl, rfl, rfl, rfl⟩
  · split <;> exact ⟨rfl, rfl, rfl, rfl⟩

theorem retryEntry_balance (owed : Nat → Multiset μ)
    (h : s.Balance fun i => pendingFor [e] i + owed i) (hok : OnlyFailed s.replicaCount e ok) :
    (s.retryEntry e ok).1.Balance fun i => pendingFor (s.retryEntry e ok).2.toList i + owed i := by
  unfold retryEntry
  simp only
  split
  next j hj =>
    intro i hi
    refine (h i hi).trans ?_
    have hfailed : j ∈ e.failed := hok.1 j (by simp [tried, hj])
    simp only [pendingFor_singleton]
    by_cases hij : i = j
    · rw [if_pos hij, if_pos (hij ▸ hfailed), ← Multiset.coe_add]
      abel
    · rw [if_neg hij, if_neg fun hi => hij (hok.2 j hj i hi)]
      rfl
  · split
    · intro i hi
      refine (h i hi).trans ?_
      simp [pendingFor_singleton]
    · intro i hi
      refine (h i hi).trans ?_
      simp only [pendingFor_singleton, countedFor_concat]
      abel

theorem retryEntry_books (h : s.BooksOk) (hok : OnlyFailed s.replicaCount e ok) :
    (s.retryEntry e ok).1.BooksOk := by
  have hretries : ∀ r ∈ s.retries ++ (tried s.replicaCount ok).map (fun i => (i, e.failed)),
      r.1 ∈ r.2 := by
    intro r hr
    rcases mem_append.mp hr with hr | hr
    · exact h.retries r hr
    · obtain ⟨i, hi, rfl⟩ := mem_map.mp hr
      exact hok.1 i hi
  unfold retryEntry
  simp only
  split
  · refine ⟨fun c => (h.counters c).trans ?_, hretries⟩
    cases c <;> exact le_refl _
  split
  · exact ⟨h.counters, hretries⟩
  refine ⟨counters_concat h.counters (fun c => ?_) (Nat.lt_succ_self _), hretries⟩
  cases c <;> simp [ReplicatorStats.value]

theorem retryAll_spec (owed : Nat → Multiset μ) {es : List (RetryEntry μ)} {ok : Nat → Nat → Bool}
    (h : s.Balance fun i => pendingFor es i + owed i) (hbooks : s.BooksOk)
    (hok : OnlyFailedAll s.replicaCount es ok) :
    let r := s.retryAll es ok
    (r.1.Balance fun i => pendingFor r.2 i + owed i) ∧ r.1.BooksOk ∧ SameFrame s r.1 ∧
      r.2.length ≤ es.length := by
  induction es generalizing s owed ok with
  | nil => exact ⟨h, hbooks, ⟨rfl, rfl, rfl, rfl⟩, le_refl _⟩
  | cons e es ih =>
    obtain ⟨hentry, hrest⟩ := hok
    have hframe := s.retryEntry_frame e (ok 0)
    have hbal := retryEntry_balance (fun i => pendingFor es i + owed i) (h.congr fun i => by
        rw [show pendingFor (e :: es) i = _ from pendingFor_append [e] es i, add_assoc]) hentry
    have hbooks' := retryEntry_books hbooks hentry
    rw [← hframe.replicaCount] at hrest
    obtain ⟨hbal', hbooks'', hframe', hlen⟩ :=
      ih (fun i => pendingFor (s.retryEntry e (ok 0)).2.toList i + owed i)
        (hbal.congr fun i => add_left_comm _ _ _) hbooks' hrest
    refine ⟨fun i hi => ?_, hbooks'', ?_, ?_⟩
    · refine (hbal' i hi).trans ?_
      simp only [retryAll, pendingFor_append]
      abel
    · exact ⟨hframe'.config.trans hframe.config, hframe'.replicaCount.trans hframe.replicaCount,
        hframe'.queue.trans hframe.queue, hframe'.retryQueue.trans hframe.retryQueue⟩
    have hone : (s.retryEntry e (ok 0)).2.toList.length ≤ 1 := by
      cases (s.retryEntry e (ok 0)).2 <;> simp
    simp only [retryAll, length_append, length_cons]
    omega

theorem requeue_eq {still : List (RetryEntry μ)}
    (h : s.retryQueue.length + still.length ≤ s.config.retryQueueCapacity) :
    s.requeue still = { s with retryQueue := s.retryQueue ++ still } := by
  unfold requeue
  induction still generalizing s with
  | nil => simp
  | cons e still ih =>
    rw [length_cons] at h
    rw [foldl_cons, if_pos (by omega), ih (by simp only [length_append, length_singleton]; omega)]
    simp

/-! ## Steps and runs -/

structure Sound (s : Replicator μ) : Prop where
  balance : s.Balance fun i => s.inHand + pendingFor s.retryQueue i
  books : s.BooksOk
  room : s.retryQueue.length ≤ s.config.retryQueueCapacity

section

variable (h : s.Sound)

include h

theorem Sound.accounted : s.Accounted := by
  refine ⟨fun i hi => ?_, h.books.counters, h.books.retries⟩
  rw [h.balance i hi, waitingFor]
  beta_reduce
  abel

theorem Sound.of_same {s' : Replicator μ}
    (hqueue : (s'.queue : Multiset μ) + s'.inHand = s.queue + s.inHand)
    (hcount : s'.replicaCount = s.replicaCount := by rfl) (hconfig : s'.config = s.config := by rfl)
    (hoffered : s'.offered = s.offered := by rfl) (hreceived : s'.received = s.received := by rfl)
    (hledger : s'.ledger = s.ledger := by rfl) (hretries : s'.retries = s.retries := by rfl)
    (hstats : ∀ c, s'.stats.value c = s.stats.value c := by intro c; cases c <;> rfl)
    (hretry : s'.retryQueue = s.retryQueue := by rfl) : s'.Sound := by
  refine ⟨fun i hi => ?_, ⟨fun c => ?_, ?_⟩, ?_⟩
  · rw [hcount] at hi
    have hbal := h.balance i hi
    beta_reduce at hbal
    show s'.offered = (s'.received i : Multiset μ) + s'.queue +
      (s'.inHand + pendingFor s'.retryQueue i) + countedFor s'.ledger i
    rw [hoffered, hreceived, hledger, hretry]
    calc s.offered = (s.received i : Multiset μ) + (s.queue + s.inHand) +
          pendingFor s.retryQueue i + countedFor s.ledger i := by rw [hbal]; abel
      _ = (s.received i : Multiset μ) + (s'.queue + s'.inHand) +
          pendingFor s.retryQueue i + countedFor s.ledger i := by rw [hqueue]
      _ = _ := by abel
  · rw [hledger, hstats]
    exact h.books.counters c
  · rw [hretries]
    exact h.books.retries
  · rw [hretry, hconfig]
    exact h.room

theorem Sound.push (msg : μ) : (s.push msg).Sound := by
  refine ⟨push_balance h.balance msg,
    ⟨fun c => (h.books.counters c).trans ?_, h.books.retries⟩, h.room⟩
  cases c <;> exact le_refl _

theorem Sound.drop (msg : μ) : (s.drop msg).Sound :=
  ⟨drop_balance h.balance msg, drop_books h.books msg, h.room⟩

theorem Sound.enqueue (msg : μ) (waited : Bool) : (s.enqueue msg waited).Sound := by
  unfold Replicator.enqueue
  split
  · have hwaited : ({ s with stats :=
        { s.stats with backpressured := s.stats.backpressured + 1 } } : Replicator μ).Sound :=
      h.of_same rfl
    simp only
    split
    · exact hwaited.push msg
    · exact hwaited.drop msg
  · split
    · split
      · exact h
      · exact h.drop msg
    · exact h.push msg

end

theorem Sound.flushed (h : s.Balance fun i => batch + pendingFor s.retryQueue i)
    (hbooks : s.BooksOk) (hroom : s.retryQueue.length ≤ s.config.retryQueueCapacity)
    (ok : Nat → Bool) {phase : SendPhase μ} (hphase : ∀ b, phase ≠ .flushing b) :
    Sound { s.flushBatch batch ok with phase := phase } := by
  have hnone : inHand { s.flushBatch batch ok with phase := phase } = [] := by
    cases phase with
    | flushing b => exact absurd rfl (hphase b)
    | _ => rfl
  have hbal := flushBatch_balance h ok
  have hbooks' := flushBatch_books hbooks batch ok
  refine ⟨?_, ⟨hbooks'.counters, hbooks'.retries⟩, flushBatch_room hroom batch ok⟩
  rw [hnone]
  exact hbal.congr fun i => (zero_add _).symm

theorem Sound.retried (h : s.Sound) (hphase : s.inHand = []) {ok : Nat → Nat → Bool}
    (hok : OnlyFailedAll s.replicaCount s.retryQueue ok) :
    Sound { s.processRetryQueue ok with phase := .waiting } := by
  have hbal : Balance { s with retryQueue := [] } fun i => pendingFor s.retryQueue i + 0 := by
    refine .congr (s := s) h.balance fun i => ?_
    rw [hphase, Multiset.coe_nil, zero_add, add_zero]
  obtain ⟨hbal', hbooks, hframe, hlen⟩ :=
    retryAll_spec (s := { s with retryQueue := [] }) (fun _ => 0) hbal
      ⟨h.books.counters, h.books.retries⟩ hok
  have hlen := hlen.trans h.room
  unfold processRetryQueue
  simp only
  rw [requeue_eq, hframe.retryQueue]
  swap
  · rw [hframe.retryQueue, hframe.config]
    simpa using hlen
  refine ⟨?_, ⟨hbooks.counters, hbooks.retries⟩, ?_⟩
  · exact hbal'.congr fun i => by
      rw [add_zero]
      exact (zero_add _).symm
  · simp only [hframe.config]
    exact hlen

theorem Sound.next (h : s.Sound) {e : ReplicatorEvent μ} (he : s.RetriesFailed e) :
    (s.next e).Sound := by
  cases e with
  | start =>
    simp only [Replicator.next]
    split
    next hphase =>
      exact h.of_same (by simp [inHand, hphase])
    · exact h
  | enqueue msg waited => exact h.enqueue msg waited
  | flush ok =>
    simp only [Replicator.next]
    split
    next batch hphase =>
      have hhand : s.inHand = batch := by simp [inHand, hphase]
      split
      next hempty =>
        exact h.of_same (by simp [inHand, hphase, hempty])
      · exact flushed (hhand ▸ h.balance) h.books h.room ok (fun _ => nofun)
    · exact h
  | retry ok =>
    simp only [Replicator.next]
    split
    next hphase =>
      exact h.retried (by simp [inHand, hphase]) he
    · exact h
  | stop => exact h.of_same rfl
  | swap | exit =>
    simp only [Replicator.next]
    split
    next hphase =>
      split <;> first
        | exact h
        | exact h.of_same (by simp [inHand, hphase])
    · exact h
  | flushRemaining ok =>
    simp only [Replicator.next]
    split
    next hphase =>
      have hhand : s.inHand = [] := by simp [inHand, hphase]
      split
      next hempty =>
        exact h.of_same (by simp [inHand, hphase])
      -- The whole queue is in hand now.
      have hbal : Balance { s with queue := [] } fun i => s.queue + pendingFor s.retryQueue i := by
        intro i hi
        refine (h.balance i hi).trans ?_
        simp only [hhand, Multiset.coe_nil]
        abel
      exact flushed hbal ⟨h.books.counters, h.books.retries⟩ h.room ok (fun _ => nofun)
    · exact h

theorem sound_new (config : ReplicatorConfig) (n : Nat) : (new config n : Replicator μ).Sound :=
  ⟨fun _ _ => rfl, ⟨fun _ => Nat.zero_le _, nofun⟩, Nat.zero_le _⟩

end

end Replicator

/-- If retries go to exactly the replicas that failed, every message is accounted for. -/
theorem replication_accounted {μ : Type*} (config : ReplicatorConfig) (n : Nat)
    {events : List (ReplicatorEvent μ)}
    (h : walReplicator.Admits RetriesFailed (new config n) events) :
    (walReplicator.run (new config n) events).Accounted :=
  (walReplicator.invariant_admits (P := Sound) (fun _ _ hs he => hs.next he)
    (sound_new config n) h).accounted

/-- One replica, which takes the batch at the second attempt. -/
theorem replication_one_replica : (walReplicator.run (Replicator.new {} 1)
      [.start, .enqueue 7 false, .swap, .flush fun _ => false, .retry fun _ _ => true]).Accounted ∧
    (walReplicator.run (Replicator.new {} 1)
      [.start, .enqueue 7 false, .swap, .flush fun _ => false,
        .retry fun _ _ => true]).received 0 = [7] := by
  refine ⟨replication_accounted {} 1 ⟨trivial, trivial, trivial, trivial, ?_, trivial⟩, rfl⟩
  refine ⟨⟨?_, ?_⟩, trivial⟩
  all_goals decide

/-- Replica 1 fails. The retry goes to replica 0, which gets the message twice; replica 1 never gets
it, and no loss is counted. -/
theorem retry_reaches_wrong_replica :
    let s := walReplicator.run (new {} 2)
      [.start, .enqueue 7 false, .swap, .flush fun i => i = 0, .retry fun _ _ => true]
    s.received 0 = [7, 7] ∧ s.received 1 = [] ∧ s.queue = [] ∧ s.retryQueue.length = 0 ∧
      s.stats.dropped = 0 ∧ s.stats.retryExhausted = 0 ∧ s.retries = [(0, [1])] := by
  decide

end Zepto.Cluster
