import Mathlib.Order.Lattice
import Mathlib.Data.List.Basic

/-!
# Set operations on sorted ranges

`std::set_intersection`, `std::set_union` and `std::set_difference` over strictly increasing
lists. Applied to two selections of the same increasing list they select by the conjunction,
the disjunction and the difference of the two tests.
-/

namespace Zepto.Lib

variable {α : Type*} [LinearOrder α]

section

variable {a : α} {as l : List α} {b : α} {bs : List α}

/-- `std::set_intersection`, the first range being `a` and then `tail`. -/
def interAux (a : α) (tail : List α → List α) : List α → List α
  | [] => []
  | b :: bs =>
    if a < b then tail (b :: bs)
    else if b < a then interAux a tail bs
    else a :: tail bs

def setIntersection : List α → List α → List α
  | [], _ => []
  | a :: as, l => interAux a (setIntersection as) l

def unionAux (a : α) (as : List α) (tail : List α → List α) : List α → List α
  | [] => a :: as
  | b :: bs =>
    if a < b then a :: tail (b :: bs)
    else if b < a then b :: unionAux a as tail bs
    else a :: tail bs

def setUnion : List α → List α → List α
  | [], l => l
  | a :: as, l => unionAux a as (setUnion as) l

def diffAux (a : α) (as : List α) (tail : List α → List α) : List α → List α
  | [] => a :: as
  | b :: bs =>
    if a < b then a :: tail (b :: bs)
    else if b < a then diffAux a as tail bs
    else tail bs

/-- The elements of the first range that are not in the second. -/
def setDifference : List α → List α → List α
  | [], _ => []
  | a :: as, l => diffAux a as (setDifference as) l

@[simp] theorem setIntersection_nil (l : List α) : setIntersection l [] = [] := by
  cases l <;> rfl

@[simp] theorem setUnion_nil (l : List α) : setUnion l [] = l := by
  cases l <;> rfl

@[simp] theorem setDifference_nil (l : List α) : setDifference l [] = l := by
  cases l <;> rfl

/-! ## Heads

An element below everything in the other range is decided at once. -/

theorem setIntersection_cons_lt (h : ∀ b ∈ l, a < b) :
    setIntersection (a :: as) l = setIntersection as l := by
  cases l with
  | nil => simp
  | cons b bs => simp [setIntersection, interAux, h b (by simp)]

theorem setIntersection_lt_cons (h : ∀ a ∈ as, b < a) :
    setIntersection as (b :: bs) = setIntersection as bs := by
  cases as with
  | nil => rfl
  | cons a as =>
    have hb : b < a := h a (by simp)
    simp [setIntersection, interAux, hb, not_lt.mpr hb.le]

theorem setUnion_cons_lt (h : ∀ b ∈ l, a < b) : setUnion (a :: as) l = a :: setUnion as l := by
  cases l with
  | nil => simp
  | cons b bs => simp [setUnion, unionAux, h b (by simp)]

theorem setUnion_lt_cons (h : ∀ a ∈ as, b < a) : setUnion as (b :: bs) = b :: setUnion as bs := by
  cases as with
  | nil => rfl
  | cons a as =>
    have hb : b < a := h a (by simp)
    simp [setUnion, unionAux, hb, not_lt.mpr hb.le]

theorem setDifference_cons_lt (h : ∀ b ∈ l, a < b) :
    setDifference (a :: as) l = a :: setDifference as l := by
  cases l with
  | nil => simp
  | cons b bs => simp [setDifference, diffAux, h b (by simp)]

/-! ## Selections of one increasing list -/

theorem lt_of_mem_filter (h : ∀ b ∈ l, a < b) (p : α → Bool) : ∀ b ∈ l.filter p, a < b :=
  fun b hb => h b (List.mem_filter.mp hb).1

section

variable (hl : l.Pairwise (· < ·))

include hl

theorem setIntersection_filter (p q : α → Bool) :
    setIntersection (l.filter p) (l.filter q) = l.filter fun x => p x && q x := by
  induction l with
  | nil => rfl
  | cons a l ih =>
    obtain ⟨hlt, hl⟩ := List.pairwise_cons.mp hl
    have ih := ih hl
    have hp := lt_of_mem_filter hlt p
    have hq := lt_of_mem_filter hlt q
    cases hpa : p a <;> cases hqa : q a <;> simp [hpa, hqa, ih]
    · rw [setIntersection_lt_cons hp, ih]
    · rw [setIntersection_cons_lt hq, ih]
    · simp [setIntersection, interAux, ih]

theorem setUnion_filter (p q : α → Bool) :
    setUnion (l.filter p) (l.filter q) = l.filter fun x => p x || q x := by
  induction l with
  | nil => rfl
  | cons a l ih =>
    obtain ⟨hlt, hl⟩ := List.pairwise_cons.mp hl
    have ih := ih hl
    have hp := lt_of_mem_filter hlt p
    have hq := lt_of_mem_filter hlt q
    cases hpa : p a <;> cases hqa : q a <;> simp [hpa, hqa, ih]
    · rw [setUnion_lt_cons hp, ih]
    · rw [setUnion_cons_lt hq, ih]
    · simp [setUnion, unionAux, ih]

theorem setDifference_filter (q : α → Bool) :
    setDifference l (l.filter q) = l.filter fun x => !q x := by
  induction l with
  | nil => rfl
  | cons a l ih =>
    obtain ⟨hlt, hl⟩ := List.pairwise_cons.mp hl
    have ih := ih hl
    have hq := lt_of_mem_filter hlt q
    cases hqa : q a <;> simp [hqa]
    · rw [setDifference_cons_lt hq, ih]
    · simp [setDifference, diffAux, ih]

end

end

end Zepto.Lib
