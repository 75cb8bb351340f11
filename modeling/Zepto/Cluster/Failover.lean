import Mathlib.Logic.Function.Basic
import Zepto.Cluster.CoordinatorHa
import Zepto.Lib.Machine

/-!
# Fencing across fail-over

A cluster starts with one active coordinator; standbys come and go, actives die, and standbys
promote themselves. Every promotion begins a new term, whose epoch is stamped on messages that are
delayed at will. Each coordinator counts its epochs on its own: a new term has a larger epoch
exactly if the promoted coordinator's token was far enough already (`fenced_iff`), and in the
ordinary fail-over it is not (`failover_reuses_epoch`).
-/

namespace Zepto.Cluster

open Function List Zepto.Lib

/-- A coordinator process and the term in which it was last made active. -/
structure Member where
  ha : CoordinatorHA
  term : Nat

structure StampedMessage where
  term : Nat
  epoch : Epoch

structure FollowerToken where
  token : FencingToken := {}
  /-- The terms of the messages that have arrived. -/
  arrived : List Nat := []

structure HaCluster where
  members : Nat → Option Member
  /-- The epoch of every term so far. -/
  terms : List Epoch
  sent : List StampedMessage := []
  followers : Nat → FollowerToken := fun _ => {}

inductive HaClusterEvent where
  /-- A standby process starts. -/
  | boot (i : Nat) (config : CoordinatorHaConfig)
  | die (i : Nat)
  | act (i : Nat) (e : HaEvent)
  /-- An active coordinator sends a message. -/
  | send (i : Nat)
  /-- A message arrives at a follower. -/
  | deliver (follower k : Nat)

namespace HaCluster

def start (config : CoordinatorHaConfig) : HaCluster where
  members := update (fun _ => none) 0 (some ⟨.init config .active, 0⟩)
  terms := [(CoordinatorHA.init config .active).peerEpoch]

def act (c : HaCluster) (i : Nat) (m : Member) (e : HaEvent) : HaCluster :=
  let ha := m.ha.next e
  if ha.promotions = m.ha.promotions then
    { c with members := update c.members i (some ⟨ha, m.term⟩) }
  else
    { c with
      members := update c.members i (some ⟨ha, c.terms.length⟩)
      terms := c.terms ++ [ha.peerEpoch] }

def next (c : HaCluster) : HaClusterEvent → HaCluster
  | .boot i config =>
    { c with members := update c.members i (some ⟨.init config .standby, 0⟩) }
  | .die i => { c with members := update c.members i none }
  | .act i e =>
    match c.members i with
    | some m => c.act i m e
    | none => c
  | .send i =>
    match c.members i with
    | some m =>
      if m.ha.role = .active then { c with sent := c.sent ++ [⟨m.term, m.ha.peerEpoch⟩] } else c
    | none => c
  | .deliver j k =>
    match c.sent[k]? with
    | some msg =>
      let f := c.followers j
      { c with
        followers := update c.followers j
          ⟨(f.token.validate msg.epoch).2, msg.term :: f.arrived⟩ }
    | none => c

/-- The epochs of the terms increase, and a follower refuses messages of terms before one it has
heard of. -/
structure Fenced (c : HaCluster) : Prop where
  terms : c.terms.Pairwise (· < ·)
  refuses : ∀ msg ∈ c.sent, ∀ j, ∀ k ∈ (c.followers j).arrived, msg.term < k →
    ((c.followers j).token.validate msg.epoch).1 = false

/-- A promotion takes the token past every epoch used so far. -/
def Ahead (c : HaCluster) : HaClusterEvent → Prop
  | .act i e => ∀ m, c.members i = some m → 0 < m.ha.advances e →
      ∀ x ∈ c.terms, x < m.ha.fencingToken.epoch + BitVec.ofNat 64 (m.ha.advances e)
  | _ => True

structure Consistent (c : HaCluster) : Prop where
  terms : c.terms.Pairwise (· < ·)
  members : ∀ i m, c.members i = some m → m.ha.role = .active →
    c.terms[m.term]? = some m.ha.peerEpoch
  sent : ∀ msg ∈ c.sent, c.terms[msg.term]? = some msg.epoch
  arrived : ∀ j, ∀ k ∈ (c.followers j).arrived, ∃ x, c.terms[k]? = some x ∧
    x ≤ (c.followers j).token.lastSeen

variable {c : HaCluster}

theorem act_cases (c : HaCluster) (i : Nat) (m : Member) (e : HaEvent) : (m.ha.advances e = 0 ∧
      c.act i m e = { c with members := update c.members i (some ⟨m.ha.next e, m.term⟩) }) ∨
    (0 < m.ha.advances e ∧ c.act i m e = { c with
        members := update c.members i (some ⟨m.ha.next e, c.terms.length⟩)
        terms := c.terms ++ [m.ha.fencingToken.epoch + BitVec.ofNat 64 (m.ha.advances e)] }) := by
  have hadv := m.ha.next_advanced e
  by_cases hzero : m.ha.advances e = 0
  · refine .inl ⟨hzero, if_pos ?_⟩
    rw [hadv.promotions, hzero, add_zero]
  have hpos : 0 < m.ha.advances e := Nat.pos_of_ne_zero hzero
  refine .inr ⟨hpos, (if_neg ?_).trans ?_⟩
  · rw [hadv.promotions]
    omega
  · rw [(hadv.stamps hpos).2, hadv.epoch]

theorem getElem?_terms_append {k : Nat} {x y : Epoch} (h : c.terms[k]? = some x) :
    (c.terms ++ [y])[k]? = some x := by
  rw [getElem?_append_left (List.getElem?_eq_some_iff.mp h).1, h]

section

variable (h : c.Consistent)

include h

theorem Consistent.act {i : Nat} {m : Member} (hm : c.members i = some m)
    {e : HaEvent} (he : c.Ahead (.act i e)) : (c.act i m e).Consistent := by
  have hadv := m.ha.next_advanced e
  obtain ⟨hterms, hmembers, hsent, harrived⟩ := h
  rcases c.act_cases i m e with ⟨hzero, heq⟩ | ⟨hpos, heq⟩
  · rw [heq]
    refine ⟨hterms, fun j m' hj hrole => ?_, hsent, harrived⟩
    by_cases hij : j = i
    · subst hij
      cases (update_self j _ c.members).symm.trans hj
      obtain ⟨hpeer, hactive⟩ := hadv.stays hzero
      rw [hmembers j m hm (hactive hrole), hpeer]
    · exact hmembers j m' ((update_of_ne hij _ _).symm.trans hj) hrole
  · rw [heq]
    refine ⟨?_, fun j m' hj hrole => ?_, fun msg hmsg => getElem?_terms_append (hsent msg hmsg),
      fun j k hk => ?_⟩
    · refine pairwise_append.mpr ⟨hterms, pairwise_singleton _ _, fun x hx y hy => ?_⟩
      rw [mem_singleton.mp hy]
      exact he m hm hpos x hx
    · by_cases hij : j = i
      · subst hij
        cases (update_self j _ c.members).symm.trans hj
        rw [(hadv.stamps hpos).2, hadv.epoch]
        exact getElem?_concat_length
      · have hj := (update_of_ne hij _ _).symm.trans hj
        exact getElem?_terms_append (hmembers j m' hj hrole)
    · obtain ⟨x, hx, hle⟩ := harrived j k hk
      exact ⟨x, getElem?_terms_append hx, hle⟩

theorem Consistent.deliver (j : Nat) {msg : StampedMessage} (hmsg : msg ∈ c.sent) :
    Consistent { c with
      followers := update c.followers j
        ⟨((c.followers j).token.validate msg.epoch).2, msg.term :: (c.followers j).arrived⟩ } := by
  refine ⟨h.terms, h.members, h.sent, fun j' k hk => ?_⟩
  by_cases hj : j' = j
  · subst hj
    simp only [update_self] at hk ⊢
    rcases mem_cons.mp hk with rfl | hk
    · refine ⟨msg.epoch, h.sent msg hmsg, ?_⟩
      exact FencingToken.le_validate _ _
    · obtain ⟨x, hx, hle⟩ := h.arrived j' k hk
      exact ⟨x, hx, BitVec.le_trans hle (FencingToken.lastSeen_le_validate _ _)⟩
  · simp only [update_of_ne hj] at hk ⊢
    exact h.arrived j' k hk

theorem Consistent.update (i : Nat) {o : Option Member}
    (ho : ∀ m, o = some m → m.ha.role ≠ .active) :
    Consistent { c with members := update c.members i o } := by
  refine ⟨h.terms, fun j m hj hrole => ?_, h.sent, h.arrived⟩
  by_cases hij : j = i
  · subst hij
    exact absurd hrole (ho m ((update_self j o c.members).symm.trans hj))
  · exact h.members j m ((update_of_ne hij _ _).symm.trans hj) hrole

theorem Consistent.next {e : HaClusterEvent} (he : c.Ahead e) : (c.next e).Consistent := by
  cases e with
  | boot i config =>
    refine h.update i fun m hm => ?_
    cases hm
    exact nofun
  | die i => exact h.update i nofun
  | act i e =>
    simp only [HaCluster.next]
    split
    next m hm =>
      exact h.act hm he
    · exact h
  | send i =>
    simp only [HaCluster.next]
    split
    next m hm =>
      split
      next hrole =>
        refine ⟨h.terms, h.members, fun msg hmsg => ?_, h.arrived⟩
        rcases mem_append.mp hmsg with hmem | hmem
        · exact h.sent msg hmem
        · rw [mem_singleton.mp hmem]
          exact h.members i m hm hrole
      · exact h
    · exact h
  | deliver j k =>
    simp only [HaCluster.next]
    split
    next msg hk =>
      exact h.deliver j (mem_of_getElem? hk)
    · exact h

/-- Messages of earlier terms have smaller epochs than a follower has seen. -/
theorem Consistent.fenced : c.Fenced := by
  refine ⟨h.terms, fun msg hmsg j k hk hlt => ?_⟩
  obtain ⟨x, hx, hle⟩ := h.arrived j k hk
  have hterm := h.sent msg hmsg
  have hless : msg.epoch < x := by
    obtain ⟨hi, hepoch⟩ := List.getElem?_eq_some_iff.mp hterm
    obtain ⟨hk', rfl⟩ := List.getElem?_eq_some_iff.mp hx
    exact hepoch ▸ pairwise_iff_getElem.mp h.terms _ _ hi hk' hlt
  rw [← Bool.not_eq_true, FencingToken.validate_fst]
  bv_omega

end

theorem consistent_start (config : CoordinatorHaConfig) : (start config).Consistent := by
  refine ⟨pairwise_singleton _ _, fun i m hm _ => ?_, nofun, nofun⟩
  simp only [start] at hm ⊢
  by_cases hi : i = 0
  · subst hi
    cases hm
    rfl
  · rw [update_of_ne hi] at hm
    cases hm

/-- Terms are only added, so a promotion that was not ahead stays visible. -/
theorem ahead_of_terms {e : HaClusterEvent} (h : (c.next e).terms.Pairwise (· < ·)) :
    c.terms.Pairwise (· < ·) ∧ c.Ahead e := by
  cases e with
  | act i e =>
    simp only [next] at h
    cases hm : c.members i with
    | none =>
      rw [hm] at h
      exact ⟨h, fun m hm' => by rw [hm] at hm'; cases hm'⟩
    | some m =>
      rw [hm] at h
      rcases c.act_cases i m e with ⟨hzero, heq⟩ | ⟨hpos, heq⟩
      · simp only [heq] at h
        refine ⟨h, fun m' hm' hpos => ?_⟩
        rw [hm] at hm'
        cases hm'
        omega
      · simp only [heq] at h
        obtain ⟨hterms, -, hnew⟩ := pairwise_append.mp h
        refine ⟨hterms, fun m' hm' _ x hx => ?_⟩
        rw [hm] at hm'
        cases hm'
        exact hnew x hx _ (mem_singleton_self _)
  | boot i config | die i => exact ⟨h, trivial⟩
  | send i =>
    refine ⟨?_, trivial⟩
    simp only [next] at h
    split at h
    · split at h <;> exact h
    · exact h
  | deliver j k =>
    refine ⟨?_, trivial⟩
    simp only [next] at h
    split at h <;> exact h

end HaCluster

def haCluster : Machine HaCluster HaClusterEvent Unit where
  step c e := ((), c.next e)

theorem admits_of_terms {c : HaCluster} {events : List HaClusterEvent}
    (h : (haCluster.run c events).terms.Pairwise (· < ·)) :
    c.terms.Pairwise (· < ·) ∧ haCluster.Admits HaCluster.Ahead c events := by
  induction events generalizing c with
  | nil => exact ⟨h, trivial⟩
  | cons e events ih =>
    obtain ⟨hterms, hrest⟩ := ih (c := c.next e) h
    obtain ⟨hbefore, hahead⟩ := HaCluster.ahead_of_terms hterms
    exact ⟨hbefore, hahead, hrest⟩

/-- A run is fenced exactly if every promotion is ahead of all earlier terms. -/
theorem fenced_iff (config : CoordinatorHaConfig) (events : List HaClusterEvent) :
    (haCluster.run (.start config) events).Fenced ↔
      haCluster.Admits HaCluster.Ahead (.start config) events := by
  constructor
  · intro h
    exact (admits_of_terms h.terms).2
  · intro h
    exact (haCluster.invariant_admits (P := HaCluster.Consistent) (fun _ _ hc he => hc.next he)
      (HaCluster.consistent_start config) h).fenced

/-- The active coordinator sends a message and dies; its standby promotes itself with the same
epoch. A follower of the standby lets the old message pass. -/
theorem failover_reuses_epoch :
    let c := haCluster.run (HaCluster.start {})
      [.boot 1 {}, .act 1 (.start "coordinator-1" 0), .send 0, .die 0, .act 1 (.monitor false 2000),
        .send 1, .deliver 0 1]
    c.terms = [1, 1] ∧ c.sent.map (·.term) = [0, 1] ∧ (c.followers 0).arrived = [1] ∧
      c.sent.map (fun msg => ((c.followers 0).token.validate msg.epoch).1) = [true, true] := by
  decide

end Zepto.Cluster
