import Zepto.Cluster.RingUpdate

/-!
# Concurrent proposals

Threads of the leader call `propose_add`, `propose_remove` and `propose_pin` at the same time. The
router's lock is held while one changes the router and again while it reads it for the snapshot, but
not in between, where the epoch is advanced. `newest_broadcast` says that the snapshot with the
newest epoch still shows every change: who has the newest epoch reads last.
-/

namespace Zepto.Cluster

open Function Zepto.Lib

/-- Where a thread that proposes stands. -/
inductive Proposer where
  | called (p : Proposal)
  /-- The router is changed. -/
  | changed
  | advanced (epoch : Epoch)
  | read (snap : RingSnapshot)
  | sent (snap : RingSnapshot)

namespace Proposer

def epoch? : Proposer → Option Epoch
  | advanced epoch => some epoch
  | read snap | sent snap => some snap.epoch
  | _ => none

def snap? : Proposer → Option RingSnapshot
  | read snap | sent snap => some snap
  | _ => none

theorem epoch?_of_snap? {p : Proposer} {snap : RingSnapshot} (h : p.snap? = some snap) :
    p.epoch? = some snap.epoch := by
  cases p with
  | read s | sent s =>
    cases h
    rfl
  | _ => cases h

end Proposer

/-- The leader and its `n` calls. -/
structure Proposals (n : Nat) where
  leader : Leader
  calls : Fin n → Proposer

namespace Proposals

variable {n : Nat}

/-- The snapshot that `broadcast_ring` makes of the router. -/
def snapshot (r : Router) (epoch : Epoch) : RingSnapshot :=
  ⟨epoch, r.allNodes, r.pinned.entries.map fun e => (e.1, e.2)⟩

/-- The next step of the call `i`. -/
def next (s : Proposals n) (i : Fin n) : Proposals n :=
  match s.calls i with
  | .called p =>
    ⟨{ s.leader with router := Leader.change s.leader.router p }, update s.calls i .changed⟩
  | .changed =>
    ⟨{ s.leader with token := s.leader.token.advance.2 },
      update s.calls i (.advanced s.leader.token.advance.1)⟩
  | .advanced epoch => ⟨s.leader, update s.calls i (.read (snapshot s.leader.router epoch))⟩
  | .read snap => ⟨s.leader, update s.calls i (.sent snap)⟩
  | .sent _ => s

/-- The counter does not wrap: a call that advances it finds it below its largest value. -/
def NoWrap (s : Proposals n) (i : Fin n) : Prop :=
  s.calls i = .changed → s.leader.token.epoch.toNat + 1 < 2 ^ 64

/-- Epochs are distinct and not above the counter, and the snapshot with the newest shows the router
unless a change waits for its epoch. -/
structure Ordered (s : Proposals n) : Prop where
  le : ∀ i epoch, (s.calls i).epoch? = some epoch → epoch ≤ s.leader.token.epoch
  distinct : ∀ i j epoch, (s.calls i).epoch? = some epoch → (s.calls j).epoch? = some epoch → i = j
  newest : ∀ i snap, (s.calls i).snap? = some snap →
    (∀ j epoch, (s.calls j).epoch? = some epoch → epoch ≤ snap.epoch) →
    snap = snapshot s.leader.router snap.epoch ∨ ∃ j, s.calls j = .changed

section

variable {s : Proposals n} {i : Fin n} {p : Proposer}

theorem epoch?_update (h : p.epoch? = (s.calls i).epoch?) (j : Fin n) :
    (update s.calls i p j).epoch? = (s.calls j).epoch? := by
  by_cases hj : j = i
  · rw [hj, update_self, h]
  · rw [update_of_ne hj]

theorem waits_update (hi : s.calls i ≠ .changed) (h : ∃ j, s.calls j = .changed) :
    ∃ j, update s.calls i p j = .changed := by
  obtain ⟨j, hj⟩ := h
  refine ⟨j, ?_⟩
  rwa [update_of_ne]
  rintro rfl
  exact hi hj

/-- A step that gives out no epoch. -/
theorem Ordered.move (h : s.Ordered) (hp : p.epoch? = (s.calls i).epoch?) {r : Router}
    (hnewest : ∀ j snap, (update s.calls i p j).snap? = some snap →
      (∀ j epoch, (s.calls j).epoch? = some epoch → epoch ≤ snap.epoch) →
      snap = snapshot r snap.epoch ∨ ∃ j, update s.calls i p j = .changed) :
    Ordered ⟨{ s.leader with router := r }, update s.calls i p⟩ := by
  constructor
  · simpa only [epoch?_update hp] using h.le
  · simpa only [epoch?_update hp] using h.distinct
  · simpa only [epoch?_update hp] using hnewest

/-- The new epoch is above all others. -/
theorem Ordered.advance (h : s.Ordered) (hroom : s.leader.token.epoch.toNat + 1 < 2 ^ 64) :
    Ordered ⟨{ s.leader with token := s.leader.token.advance.2 },
      update s.calls i (.advanced s.leader.token.advance.1)⟩ := by
  have hlt {j : Fin n} {epoch : Epoch} (hj : (s.calls j).epoch? = some epoch) :
      epoch < s.leader.token.epoch + 1 := by
    have := h.le j epoch hj
    bv_omega
  have hcases {j : Fin n} {epoch : Epoch}
      (hj : (update s.calls i (.advanced (s.leader.token.epoch + 1)) j).epoch? = some epoch) :
      j = i ∧ epoch = s.leader.token.epoch + 1 ∨ j ≠ i ∧ (s.calls j).epoch? = some epoch := by
    by_cases hji : j = i
    · rw [hji, update_self] at hj
      exact .inl ⟨hji, (Option.some.inj hj).symm⟩
    · rw [update_of_ne hji] at hj
      exact .inr ⟨hji, hj⟩
  constructor
  · intro j epoch hj
    obtain ⟨-, rfl⟩ | ⟨-, hold⟩ := hcases hj
    · exact BitVec.le_refl _
    · exact BitVec.le_of_lt (hlt hold)
  · intro j k epoch hj hk
    obtain ⟨rfl, rfl⟩ | ⟨-, hj⟩ := hcases hj <;> obtain ⟨hk, he⟩ | ⟨-, hk⟩ := hcases hk
    · exact hk.symm
    · exact absurd (hlt hk) (BitVec.lt_irrefl _)
    · exact absurd (he ▸ hlt hj) (BitVec.lt_irrefl _)
    · exact h.distinct j k epoch hj hk
  · intro j snap hsnap hmax
    dsimp only at hsnap hmax
    obtain ⟨rfl, -⟩ | ⟨-, hj⟩ := hcases (Proposer.epoch?_of_snap? hsnap)
    · rw [update_self] at hsnap
      cases hsnap
    · have hle := hmax i (s.leader.token.epoch + 1) (by rw [update_self]; rfl)
      exact absurd (hlt hj) (BitVec.not_lt.mpr hle)

theorem ordered_next (h : s.Ordered) (hi : s.NoWrap i) : (s.next i).Ordered := by
  unfold next
  split
  next p hcall =>
    refine h.move (by rw [hcall]; rfl) fun j snap hsnap hmax => .inr ⟨i, update_self ..⟩
  next hcall =>
    exact h.advance (hi hcall)
  next epoch hcall =>
    refine h.move (by rw [hcall]; rfl) fun j snap hsnap hmax => ?_
    by_cases hj : j = i
    · rw [hj, update_self] at hsnap
      cases hsnap
      exact .inl rfl
    · rw [update_of_ne hj] at hsnap
      exact (h.newest j snap hsnap hmax).imp_right (waits_update (by simp [hcall]))
  next snap hcall =>
    refine h.move (by rw [hcall]; rfl) fun j snap' hsnap hmax => ?_
    have hsnap' : (s.calls j).snap? = some snap' := by
      by_cases hj : j = i
      · rw [hj, hcall]
        rwa [hj, update_self] at hsnap
      · rwa [update_of_ne hj] at hsnap
    exact (h.newest j snap' hsnap' hmax).imp_right (waits_update (by simp [hcall]))
  · exact h

end

/-- All calls have returned. -/
def Finished (s : Proposals n) : Prop := ∀ i, ∃ snap, s.calls i = .sent snap

/-- No snapshot sent has a newer epoch. -/
def Newest (s : Proposals n) (top : RingSnapshot) : Prop :=
  ∀ i snap, s.calls i = .sent snap → snap.epoch ≤ top.epoch

def start (l : Leader) (ps : Fin n → Proposal) : Proposals n := ⟨l, fun i => .called (ps i)⟩

end Proposals

def proposals (n : Nat) : Machine (Proposals n) (Fin n) Unit where
  step s i := ((), s.next i)

open Proposals

/-- If the epoch does not wrap, the calls that have all returned sent distinct epochs, and the
snapshot with the newest shows the leader's router. -/
theorem newest_broadcast {n : Nat} (l : Leader) (ps : Fin n → Proposal) {steps : List (Fin n)}
    (hrun : (proposals n).Admits NoWrap (start l ps) steps)
    (hfin : ((proposals n).run (start l ps) steps).Finished) :
    let s := (proposals n).run (start l ps) steps
    (∀ i j a b, s.calls i = .sent a → s.calls j = .sent b → a.epoch = b.epoch → i = j) ∧
    ∀ i top, s.calls i = .sent top → s.Newest top → s.leader.router.Shows top := by
  intro s
  have hstart : (start l ps).Ordered := by
    constructor
    · exact fun i epoch h => by cases h
    · exact fun i j epoch h => by cases h
    · exact fun i snap h => by cases h
  have hs : s.Ordered := (proposals n).invariant_admits (P := Ordered)
    (fun _ _ h hi => ordered_next h hi) hstart hrun
  refine ⟨fun i j a b hi hj heq => ?_, fun i top hi htop => ?_⟩
  · exact hs.distinct i j a.epoch (by rw [hi]; rfl) (by rw [hj, heq]; rfl)
  have hmax (j : Fin n) (epoch : Epoch) (hj : (s.calls j).epoch? = some epoch) :
      epoch ≤ top.epoch := by
    obtain ⟨snap, hsnap⟩ := hfin j
    rw [hsnap] at hj
    cases hj
    exact htop j snap hsnap
  obtain hshown | ⟨j, hj⟩ := hs.newest i top (by rw [hi]; rfl) hmax
  · rw [hshown]
    refine ⟨(Finset.sort_toFinset _ _).symm, fun x y => ?_⟩
    simp [snapshot, ← AList.mem_lookup_iff]
  · obtain ⟨snap, hsnap⟩ := hfin j
    rw [hsnap] at hj
    cases hj

/-- Symbol 1 is pinned to node 1 and symbol 2 to node 2, from the given epoch. -/
def twoPins (epoch : Epoch) : Proposals 2 :=
  start ⟨.new, ⟨epoch, 0⟩⟩ fun i => if i = 0 then .pin 1 1 else .pin 2 2

/-- The second call changes the router when the first one has its epoch. -/
theorem newest_broadcast_two_pins :
    ((proposals 2).run (twoPins 0) [0, 0, 1, 1, 1, 0, 0, 1]).leader.router.Shows
      (snapshot ((Router.new.pinSymbol 1 1).pinSymbol 2 2) 2) := by
  refine (@newest_broadcast 2 _ _ [0, 0, 1, 1, 1, 0, 0, 1] ?_ ?_).2 1 _ rfl ?_
  · refine ⟨?_, ?_, ?_, ?_, ?_, ?_, ?_, ?_, trivial⟩ <;> exact fun _ => by decide
  · exact Fin.forall_fin_two.mpr ⟨⟨_, rfl⟩, ⟨_, rfl⟩⟩
  · refine Fin.forall_fin_two.mpr ⟨?_, ?_⟩ <;> intro snap h <;> cases h <;> decide

/-- The largest epoch belongs to the first call, the second gets 0. -/
theorem wrapped_epoch_hides_pin : let s := (proposals 2).run (twoPins (-2)) [0, 0, 0, 0, 1, 1, 1, 1]
    s.Finished ∧ ∃ top, s.calls 0 = .sent top ∧ s.Newest top ∧ ¬s.leader.router.Shows top := by
  refine ⟨?_, _, rfl, ?_, fun h => ?_⟩
  · exact Fin.forall_fin_two.mpr ⟨⟨_, rfl⟩, ⟨_, rfl⟩⟩
  · refine Fin.forall_fin_two.mpr ⟨?_, ?_⟩ <;> intro snap h <;> cases h <;> decide
  · exact absurd ((h.2 2 2).mp rfl) (by decide)

end Zepto.Cluster
