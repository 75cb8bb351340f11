import Zepto.Cluster.Fencing

/-!
# Coordinators with a standby

A `CoordinatorHA` is active or standby. A standby pings its peer and promotes itself when no answer
comes for long enough; with a lease, it has to hold the lease first, and winning the lease promotes
it as well. Every promotion advances the coordinator's own fencing token. The turns of the monitor
and lease threads are single steps; the addresses of the registered nodes play no part.
-/

namespace Zepto.Cluster

inductive CoordinatorRole where
  | active
  | standby
  deriving DecidableEq

structure CoordinatorHaConfig where
  failoverAfterMs : Nat := 2000
  requireLease : Bool := false
  leaseDurationMs : Nat := 15000
  deriving DecidableEq

/-- The lease as it is simulated: each coordinator has its own. -/
structure K8sLease where
  holderId : String := ""
  token : FencingToken := {}
  isLeader : Bool := false
  currentHolder : String := ""
  leaseExpiryMs : Nat := 0
  deriving DecidableEq

def K8sLease.Free (l : K8sLease) (now : Nat) : Prop :=
  l.currentHolder = "" ∨ l.leaseExpiryMs ≤ now

instance (l : K8sLease) (now : Nat) : Decidable (l.Free now) :=
  inferInstanceAs (Decidable (_ ∨ _))

structure CoordinatorHA where
  config : CoordinatorHaConfig
  role : CoordinatorRole := .standby
  fencingToken : FencingToken := {}
  lease : Option K8sLease := none
  /-- The epoch the RPC client stamps on messages. -/
  peerEpoch : Epoch := 0
  running : Bool := false
  /-- The monitor thread runs. -/
  monitoring : Bool := false
  lastPongMs : Nat := 0
  promotions : Nat := 0
  deriving DecidableEq

namespace CoordinatorHA

/-- `init(role)` on a new object. -/
def init (config : CoordinatorHaConfig) (role : CoordinatorRole) : CoordinatorHA :=
  let ha : CoordinatorHA :=
    { config, role, lease := if config.requireLease then some {} else none }
  match role with
  | .active =>
    let (_, token) := ha.fencingToken.advance
    { ha with fencingToken := token, peerEpoch := token.epoch }
  | .standby => ha

/-- `start()`, with the identity it makes up for the lease. -/
def start (ha : CoordinatorHA) (holder : String) (now : Nat) : CoordinatorHA :=
  if ha.running then ha
  else
    { ha with
      running := true
      lease := ha.lease.map fun l => { l with holderId := holder }
      monitoring := ha.role = .standby
      lastPongMs := now }

def stop (ha : CoordinatorHA) : CoordinatorHA := { ha with running := false, monitoring := false }

/-- The part of `try_promote` after the lease is settled. -/
def promote (ha : CoordinatorHA) : CoordinatorHA :=
  let (epoch, token) := ha.fencingToken.advance
  { ha with
    fencingToken := token
    role := .active
    promotions := ha.promotions + 1
    peerEpoch := epoch }

def onElected (ha : CoordinatorHA) : CoordinatorHA :=
  if ha.role = .standby then ha.promote else ha

def onLost (ha : CoordinatorHA) : CoordinatorHA :=
  if ha.role = .active then { ha with role := .standby } else ha

/-- `try_acquire()`, with the callback. -/
def tryAcquire (ha : CoordinatorHA) (l : K8sLease) (now : Nat) : Bool × CoordinatorHA :=
  if l.Free now then
    let l := { l with
      currentHolder := l.holderId, leaseExpiryMs := now + ha.config.leaseDurationMs }
    if l.isLeader then (true, { ha with lease := some l })
    else
      (true, onElected { ha with
        lease := some { l with isLeader := true, token := l.token.advance.2 } })
  else if l.currentHolder = l.holderId then
    (true, { ha with
      lease := some { l with leaseExpiryMs := now + ha.config.leaseDurationMs } })
  else (false, ha)

/-- `try_promote()`. -/
def tryPromote (ha : CoordinatorHA) (now : Nat) : Bool × CoordinatorHA :=
  match ha.lease with
  | none => (true, ha.promote)
  | some l =>
    if l.isLeader then (true, ha.promote)
    else
      match ha.tryAcquire l now with
      | (true, ha) => (true, ha.promote)
      | (false, ha) => (false, ha)

/-- One turn of the monitor thread: the peer answered the ping or not. -/
def monitorTurn (ha : CoordinatorHA) (alive : Bool) (now : Nat) : CoordinatorHA :=
  if ha.running ∧ ha.monitoring ∧ ha.role = .standby then
    if alive then { ha with lastPongMs := now }
    else if ha.config.failoverAfterMs ≤ now - ha.lastPongMs then
      match ha.tryPromote now with
      | (true, ha) => { ha with monitoring := false }
      | (false, ha) => { ha with lastPongMs := now }
    else ha
  else ha

/-- One turn of the lease thread: renew the lease, or try to win it. -/
def leaseTurn (ha : CoordinatorHA) (now : Nat) : CoordinatorHA :=
  match ha.lease with
  | none => ha
  | some l =>
    if ha.running then
      match ha.tryAcquire l now with
      | (true, ha) => ha
      | (false, ha) =>
        if l.isLeader then onLost { ha with lease := some { l with isLeader := false } } else ha
    else ha

/-- `release()` of the lease. -/
def release (ha : CoordinatorHA) : CoordinatorHA :=
  match ha.lease with
  | none => ha
  | some l =>
    if l.isLeader then
      onLost { ha with lease := some { l with isLeader := false, currentHolder := "" } }
    else ha

/-- `force_holder(other)` of the lease. -/
def forceHolder (ha : CoordinatorHA) (other : String) (now : Nat) : CoordinatorHA :=
  match ha.lease with
  | none => ha
  | some l =>
    let taken := { l with
      currentHolder := other, leaseExpiryMs := now + ha.config.leaseDurationMs }
    if l.holderId ≠ other ∧ l.isLeader then
      onLost { ha with lease := some { taken with isLeader := false } }
    else { ha with lease := some taken }

end CoordinatorHA

inductive HaEvent where
  | start (holder : String) (now : Nat)
  | stop
  | monitor (alive : Bool) (now : Nat)
  | lease (now : Nat)
  | release
  | forceHolder (other : String) (now : Nat)
  deriving DecidableEq

namespace CoordinatorHA

def next (ha : CoordinatorHA) : HaEvent → CoordinatorHA
  | .start holder now => ha.start holder now
  | .stop => ha.stop
  | .monitor alive now => ha.monitorTurn alive now
  | .lease now => ha.leaseTurn now
  | .release => ha.release
  | .forceHolder other now => ha.forceHolder other now

/-! ## Promotions -/

/-- How often `try_promote` advances the token: winning the lease promotes once more. -/
def promotes (ha : CoordinatorHA) (now : Nat) : Nat :=
  match ha.lease with
  | none => 1
  | some l =>
    if l.isLeader then 1
    else if l.Free now then
      if ha.role = .standby then 2 else 1
    else if l.currentHolder = l.holderId then 1 else 0

def advances (ha : CoordinatorHA) : HaEvent → Nat
  | .monitor alive now =>
    if ha.running ∧ ha.monitoring ∧ ha.role = .standby ∧ alive = false ∧
        ha.config.failoverAfterMs ≤ now - ha.lastPongMs then ha.promotes now
    else 0
  | .lease now =>
    match ha.lease with
    | none => 0
    | some l =>
      if ha.running ∧ l.isLeader = false ∧ ha.role = .standby ∧ l.Free now then 1 else 0
  | _ => 0

/-- The token is `k` further; if it moved, the coordinator is active and stamps it. -/
structure Advanced (ha ha' : CoordinatorHA) (k : Nat) : Prop where
  promotions : ha'.promotions = ha.promotions + k
  epoch : ha'.fencingToken.epoch = ha.fencingToken.epoch + BitVec.ofNat 64 k
  stamps : 0 < k → ha'.role = .active ∧ ha'.peerEpoch = ha'.fencingToken.epoch
  stays : k = 0 → ha'.peerEpoch = ha.peerEpoch ∧ (ha'.role = .active → ha.role = .active)

variable {ha ha' : CoordinatorHA} {l : K8sLease} {k now : Nat}

theorem Advanced.zero (hpromotions : ha'.promotions = ha.promotions)
    (htoken : ha'.fencingToken = ha.fencingToken) (hpeer : ha'.peerEpoch = ha.peerEpoch)
    (hrole : ha'.role = .active → ha.role = .active) : Advanced ha ha' 0 := by
  refine ⟨hpromotions, ?_, fun h => absurd h (lt_irrefl 0), fun _ => ⟨hpeer, hrole⟩⟩
  rw [htoken]
  exact (add_zero _).symm

theorem Advanced.promote (h : Advanced ha ha' k) : Advanced ha ha'.promote (k + 1) := by
  refine ⟨?_, ?_, fun _ => ⟨rfl, rfl⟩, fun hk => absurd hk (Nat.succ_ne_zero k)⟩
  · show ha'.promotions + 1 = _
    rw [h.promotions, add_assoc]
  · show ha'.fencingToken.epoch + 1 = _
    rw [h.epoch, BitVec.ofNat_add, ← add_assoc]
    rfl

theorem Advanced.congr {ha'' : CoordinatorHA} (h : Advanced ha ha' k)
    (hpromotions : ha''.promotions = ha'.promotions)
    (htoken : ha''.fencingToken = ha'.fencingToken) (hpeer : ha''.peerEpoch = ha'.peerEpoch)
    (hrole : ha''.role = ha'.role) : Advanced ha ha'' k := by
  obtain ⟨hp, he, hs, hz⟩ := h
  exact ⟨hpromotions.trans hp, htoken ▸ he, by rw [htoken, hpeer, hrole]; exact hs,
    by rw [hpeer, hrole]; exact hz⟩

theorem advanced_onLost (hpromotions : ha'.promotions = ha.promotions)
    (htoken : ha'.fencingToken = ha.fencingToken) (hpeer : ha'.peerEpoch = ha.peerEpoch)
    (hrole : ha'.role = ha.role) : Advanced ha ha'.onLost 0 := by
  unfold onLost
  split
  · exact .zero hpromotions htoken hpeer nofun
  · exact .zero hpromotions htoken hpeer fun h => hrole ▸ h

section

variable (ha : CoordinatorHA)

theorem tryAcquire_advanced (l : K8sLease) (now : Nat) : Advanced ha (ha.tryAcquire l now).2
      (if l.Free now ∧ l.isLeader = false ∧ ha.role = .standby then 1 else 0) := by
  unfold tryAcquire
  by_cases hfree : l.Free now
  · rw [if_pos hfree]
    by_cases hleader : l.isLeader
    · rw [if_pos hleader, if_neg (by simp [hleader])]
      exact .zero rfl rfl rfl id
    rw [if_neg hleader]
    unfold onElected
    by_cases hrole : ha.role = .standby
    · rw [if_pos hrole, if_pos ⟨hfree, by simpa using hleader, hrole⟩]
      exact .promote (.zero rfl rfl rfl id)
    · rw [if_neg hrole, if_neg fun h => hrole h.2.2]
      exact .zero rfl rfl rfl id
  · have hcount : ¬(l.Free now ∧ l.isLeader = false ∧ ha.role = .standby) := fun h => hfree h.1
    rw [if_neg hfree]
    split <;> exact .zero rfl rfl rfl id

theorem tryAcquire_fst (l : K8sLease) (now : Nat) :
    (ha.tryAcquire l now).1 ↔ l.Free now ∨ l.currentHolder = l.holderId := by
  unfold tryAcquire
  by_cases hfree : l.Free now
  · rw [if_pos hfree]
    simp only [hfree, true_or, iff_true]
    split <;> rfl
  · rw [if_neg hfree]
    split <;> simp_all

theorem tryPromote_advanced (now : Nat) : Advanced ha (ha.tryPromote now).2 (ha.promotes now) := by
  unfold tryPromote promotes
  have hsame : Advanced ha ha 0 := .zero rfl rfl rfl id
  cases ha.lease with
  | none => exact hsame.promote
  | some l =>
    simp only
    by_cases hleader : l.isLeader
    · rw [if_pos hleader, if_pos hleader]
      exact hsame.promote
    rw [if_neg hleader, if_neg hleader]
    have hacquire := ha.tryAcquire_advanced l now
    have hfst := ha.tryAcquire_fst l now
    have hnot : l.isLeader = false := by simpa using hleader
    generalize ha.tryAcquire l now = acquired at hacquire hfst ⊢
    obtain ⟨ok, ha'⟩ := acquired
    by_cases hfree : l.Free now
    · rw [if_pos hfree]
      cases hfst.mpr (.inl hfree)
      split_ifs with hrole
      · rw [if_pos ⟨hfree, hnot, hrole⟩] at hacquire
        exact hacquire.promote
      · rw [if_neg fun h => hrole h.2.2] at hacquire
        exact hacquire.promote
    · rw [if_neg fun h => hfree h.1] at hacquire
      rw [if_neg hfree]
      by_cases hmine : l.currentHolder = l.holderId
      · rw [if_pos hmine]
        cases hfst.mpr (.inr hmine)
        exact hacquire.promote
      rw [if_neg hmine]
      cases ok with
      | true => exact absurd (hfst.mp rfl) (by simp [hfree, hmine])
      | false => exact hacquire

theorem monitorTurn_advanced (alive : Bool) (now : Nat) :
    Advanced ha (ha.monitorTurn alive now) (ha.advances (.monitor alive now)) := by
  unfold monitorTurn
  simp only [advances]
  by_cases hturn : ha.running ∧ ha.monitoring ∧ ha.role = .standby
  · obtain ⟨hrun, hmon, hrole⟩ := hturn
    simp only [hrun, hmon, hrole]
    cases alive with
    | true => exact .zero rfl rfl rfl fun h => hrole ▸ h
    | false =>
      simp only [true_and]
      by_cases hlate : ha.config.failoverAfterMs ≤ now - ha.lastPongMs
      · rw [if_pos hlate, if_pos hlate]
        have hpromote := ha.tryPromote_advanced now
        generalize ha.tryPromote now = promoted at hpromote ⊢
        obtain ⟨_ | _, ha'⟩ := promoted
        all_goals exact hpromote.congr rfl rfl rfl rfl
      · rw [if_neg hlate, if_neg hlate]
        exact .zero rfl rfl rfl id
  · rw [if_neg hturn, if_neg fun h => hturn ⟨h.1, h.2.1, h.2.2.1⟩]
    exact .zero rfl rfl rfl id

theorem leaseTurn_advanced (now : Nat) :
    Advanced ha (ha.leaseTurn now) (ha.advances (.lease now)) := by
  unfold leaseTurn
  simp only [advances]
  cases ha.lease with
  | none => exact .zero rfl rfl rfl id
  | some l =>
    simp only
    by_cases hrun : ha.running
    · have hacquire := ha.tryAcquire_advanced l now
      have hcount : (ha.running ∧ l.isLeader = false ∧ ha.role = .standby ∧ l.Free now) ↔
          l.Free now ∧ l.isLeader = false ∧ ha.role = .standby := by
        tauto
      have hsame : (ha.tryAcquire l now).1 = false → (ha.tryAcquire l now).2 = ha := by
        unfold tryAcquire
        split
        · simp only
          split <;> exact nofun
        · split
          · exact nofun
          · exact fun _ => rfl
      rw [if_pos hrun, if_congr hcount rfl rfl]
      have hfst := ha.tryAcquire_fst l now
      generalize ha.tryAcquire l now = acquired at hacquire hfst hsame ⊢
      obtain ⟨_ | _, ha'⟩ := acquired
      · obtain rfl : ha' = ha := hsame rfl
        have hbusy : ¬l.Free now := fun h => absurd (hfst.mpr (.inl h)) nofun
        rw [if_neg fun h => hbusy h.1]
        show Advanced ha' (if l.isLeader then _ else ha') 0
        split
        · exact advanced_onLost rfl rfl rfl rfl
        · exact .zero rfl rfl rfl id
      · exact hacquire
    · rw [if_neg hrun, if_neg fun h => hrun h.1]
      exact .zero rfl rfl rfl id

theorem next_advanced (e : HaEvent) : Advanced ha (ha.next e) (ha.advances e) := by
  cases e with
  | start holder now =>
    show Advanced ha (ha.start holder now) 0
    unfold start
    split <;> exact .zero rfl rfl rfl id
  | stop => exact .zero rfl rfl rfl id
  | monitor alive now => exact ha.monitorTurn_advanced alive now
  | lease now => exact ha.leaseTurn_advanced now
  | release | forceHolder =>
    simp only [next, advances, release, forceHolder]
    split
    · exact .zero rfl rfl rfl id
    split
    · exact advanced_onLost rfl rfl rfl rfl
    · exact .zero rfl rfl rfl id

end

end CoordinatorHA

end Zepto.Cluster
