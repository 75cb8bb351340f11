import Mathlib.Data.Nat.ModEq
import Mathlib.Logic.Function.Basic

/-!
# The ring buffer of the tick plant

`MPMCRingBufferDynamic`: a push takes the next write position and fills the slot there if it is
empty, a pop empties the slot at the read position if it is full. `Holds r q` says that pops give
the items of `q`. A push into an empty slot puts an item behind `q`, if the write position is there
(`Aligned`); a push that fails moves the write position all the same, and so ends that.
-/

namespace Zepto.Ingestion

open List Function

/-- `MPMCRingBufferDynamic`. Between calls a slot is `EMPTY`, or `READY` with an item. Positions are
not wrapped at `2^64`, which the capacity divides. -/
structure RingBuffer (α : Type) where
  capacity : Nat
  slots : Nat → Option α
  writePos : Nat
  readPos : Nat
  pow2 : capacity.isPowerOfTwo
  capacity_lt : capacity < 2 ^ 64

namespace RingBuffer

variable {α : Type} {r : RingBuffer α} {q : List α} {x : α}

def new (capacity : Nat) (pow2 : capacity.isPowerOfTwo) (lt : capacity < 2 ^ 64) : RingBuffer α :=
  ⟨capacity, fun _ => none, 0, 0, pow2, lt⟩

def index (r : RingBuffer α) (pos : Nat) : Nat := pos &&& (r.capacity - 1)

def tryPush (r : RingBuffer α) (item : α) : Bool × RingBuffer α :=
  match r.slots (r.index r.writePos) with
  | some _ => (false, { r with writePos := r.writePos + 1 })
  | none =>
    (true, { r with
      writePos := r.writePos + 1
      slots := update r.slots (r.index r.writePos) (some item) })

def tryPop (r : RingBuffer α) : Option (α × RingBuffer α) :=
  match r.slots (r.index r.readPos) with
  | none => none
  | some item =>
    some (item, { r with
      readPos := r.readPos + 1
      slots := update r.slots (r.index r.readPos) none })

def popUpTo : Nat → RingBuffer α → List α
  | 0, _ => []
  | n + 1, r =>
    match r.tryPop with
    | none => []
    | some (item, r) => item :: popUpTo n r

/-- What a consumer finds before it meets a slot that is not ready. -/
def ready (r : RingBuffer α) : List α := popUpTo r.capacity r

section

variable (r : RingBuffer α)

theorem capacity_pos : 0 < r.capacity := by
  obtain ⟨k, hk⟩ := r.pow2
  rw [hk]
  exact Nat.two_pow_pos k

theorem index_eq (pos : Nat) : r.index pos = pos % r.capacity := by
  obtain ⟨k, hk⟩ := r.pow2
  rw [index, hk, Nat.and_two_pow_sub_one_eq_mod]

theorem index_add_capacity (pos : Nat) : r.index (pos + r.capacity) = r.index pos := by
  rw [index_eq, index_eq, Nat.add_mod_right]

theorem index_inj (pos : Nat) {i j : Nat} (hi : i < r.capacity) (hj : j < r.capacity)
    (h : r.index (pos + i) = r.index (pos + j)) : i = j := by
  rw [index_eq, index_eq] at h
  have h : i ≡ j [MOD r.capacity] := .add_left_cancel' pos h
  exact h.eq_of_lt_of_lt hi hj

end

/-! ## The queue in the slots -/

/-- From the read position on, the slots hold the items and are empty then. -/
structure Holds (r : RingBuffer α) (q : List α) : Prop where
  length_le : q.length ≤ r.capacity
  slots : ∀ i < r.capacity, r.slots (r.index (r.readPos + i)) = q[i]?

/-- The write position is the one behind the items. -/
def Aligned (r : RingBuffer α) (q : List α) : Prop := r.writePos = r.readPos + q.length

theorem tryPop_nil (h : r.Holds []) : r.tryPop = none := by
  have hslot := h.slots 0 r.capacity_pos
  rw [add_zero, getElem?_nil] at hslot
  rw [tryPop, hslot]

theorem tryPop_cons (h : r.Holds (x :: q)) :
    ∃ r', r.tryPop = some (x, r') ∧ r'.Holds q ∧ r'.capacity = r.capacity ∧
      r'.writePos = r.writePos ∧ r'.readPos = r.readPos + 1 := by
  have hslot := h.slots 0 r.capacity_pos
  rw [add_zero] at hslot
  rw [tryPop, hslot]
  refine ⟨_, rfl, ⟨?_, ?_⟩, rfl, rfl, rfl⟩
  · have := h.length_le
    exact Nat.le_of_succ_le this
  intro i hi
  show update r.slots (r.index r.readPos) none (r.index (r.readPos + 1 + i)) = q[i]?
  have hi : i < r.capacity := hi
  by_cases hlast : i + 1 < r.capacity
  · have hne : r.index (r.readPos + 1 + i) ≠ r.index r.readPos := by
      intro heq
      rw [add_assoc, add_comm 1 i] at heq
      have := r.index_inj r.readPos hlast r.capacity_pos heq
      omega
    have hnext := h.slots (i + 1) hlast
    rw [getElem?_cons_succ] at hnext
    rw [update_of_ne hne, ← hnext]
    congr 2
    omega
  · have hround : r.readPos + 1 + i = r.readPos + r.capacity := by omega
    rw [hround, index_add_capacity, update_self, getElem?_eq_none]
    have := h.length_le
    rw [length_cons] at this
    omega

section

variable (h : r.Holds q) (ha : r.Aligned q)

include h ha

theorem slot_at_writePos (hlt : q.length < r.capacity) : r.slots (r.index r.writePos) = none := by
  rw [ha, h.slots _ hlt, getElem?_eq_none (le_refl _)]

theorem slot_of_full (hfull : q.length = r.capacity) : r.slots (r.index r.writePos) = q[0]? := by
  rw [ha, hfull, index_add_capacity, ← h.slots 0 r.capacity_pos, add_zero]

/-- A push into an empty slot puts the item behind the others. -/
theorem tryPush_of_empty (hempty : r.slots (r.index r.writePos) = none) :
    ∃ r', r.tryPush x = (true, r') ∧ r'.Holds (q ++ [x]) ∧ r'.Aligned (q ++ [x]) ∧
      r'.capacity = r.capacity := by
  have hlt : q.length < r.capacity := by
    by_contra hge
    have hfull : q.length = r.capacity := by
      have := h.length_le
      omega
    have hslot := slot_of_full h ha hfull
    rw [hempty, eq_comm, getElem?_eq_none_iff] at hslot
    have := r.capacity_pos
    omega
  rw [tryPush, hempty]
  refine ⟨_, rfl, ⟨?_, ?_⟩, ?_, rfl⟩
  · rw [length_append]
    exact hlt
  · intro i hi
    show update r.slots (r.index r.writePos) (some x) (r.index (r.readPos + i)) = _
    rw [ha]
    by_cases heq : i = q.length
    · rw [heq, update_self, getElem?_append_right (le_refl _), Nat.sub_self]
      rfl
    have hne : r.index (r.readPos + i) ≠ r.index (r.readPos + q.length) := fun hidx =>
      heq (r.index_inj r.readPos hi hlt hidx)
    rw [update_of_ne hne, h.slots i hi]
    rcases lt_or_ge i q.length with hlt' | hge
    · rw [getElem?_append_left hlt']
    · rw [getElem?_eq_none hge, getElem?_eq_none]
      rw [length_append, length_singleton]
      omega
  · show r.writePos + 1 = r.readPos + (q ++ [x]).length
    rw [ha, length_append, length_singleton]
    omega

end

/-- A push into a full ring fails wherever the write position is. -/
theorem tryPush_of_full (h : r.Holds q) (hfull : q.length = r.capacity)
    (hle : r.readPos ≤ r.writePos) :
    ∃ r', r.tryPush x = (false, r') ∧ r'.Holds q ∧ r'.capacity = r.capacity ∧
      r'.readPos ≤ r'.writePos := by
  have hi : (r.writePos - r.readPos) % r.capacity < q.length := by
    rw [hfull]
    exact Nat.mod_lt _ r.capacity_pos
  have hindex : r.index (r.readPos + (r.writePos - r.readPos) % r.capacity) =
      r.index r.writePos := by
    rw [index_eq, index_eq, Nat.add_mod_mod]
    congr 1
    omega
  have hslot := h.slots _ (hfull ▸ hi)
  rw [hindex, getElem?_eq_getElem hi] at hslot
  rw [tryPush, hslot]
  exact ⟨_, rfl, ⟨h.length_le, h.slots⟩, rfl, Nat.le_succ_of_le hle⟩

/-- If the write position of an empty ring is one too far, a pushed item is not popped. -/
theorem tryPop_of_skewed (h : r.Holds []) (hskew : r.writePos = r.readPos + 1)
    (hcap : 2 ≤ r.capacity) : ∃ r', r.tryPush x = (true, r') ∧ r'.tryPop = none := by
  have hempty : r.slots (r.index r.writePos) = none := by
    rw [hskew, h.slots 1 hcap, getElem?_nil]
  have hread : r.slots (r.index r.readPos) = none := by
    have := h.slots 0 r.capacity_pos
    rwa [add_zero, getElem?_nil] at this
  have hne : r.index r.readPos ≠ r.index r.writePos := by
    rw [hskew]
    intro heq
    exact absurd (r.index_inj r.readPos r.capacity_pos hcap heq) (by omega)
  rw [tryPush, hempty]
  refine ⟨_, rfl, ?_⟩
  show (match update r.slots (r.index r.writePos) (some x) (r.index r.readPos) with
    | none => none
    | some item => _) = none
  rw [update_of_ne hne, hread]

theorem popUpTo_of_holds {n : Nat} (h : r.Holds q) (hn : q.length ≤ n) : popUpTo n r = q := by
  induction q generalizing r n with
  | nil =>
    cases n with
    | zero => rfl
    | succ n => rw [popUpTo, tryPop_nil h]
  | cons x q ih =>
    cases n with
    | zero => cases hn
    | succ n =>
      obtain ⟨r', hpop, hholds, -⟩ := tryPop_cons h
      rw [popUpTo, hpop]
      show x :: popUpTo n r' = x :: q
      rw [ih hholds (Nat.le_of_succ_le_succ hn)]

theorem ready_of_tryPop (h : r.tryPop = none) : r.ready = [] := by
  obtain ⟨n, hn⟩ := Nat.exists_eq_succ_of_ne_zero r.capacity_pos.ne'
  rw [ready, hn, popUpTo, h]

theorem ready_of_holds (h : r.Holds q) : r.ready = q := popUpTo_of_holds h h.length_le

end RingBuffer

end Zepto.Ingestion
