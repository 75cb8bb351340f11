import Mathlib.Data.Int.Basic

/-!
# Binary search

`partitionPoint` is the halving loop behind `std::lower_bound` and `std::upper_bound`: it
narrows `[first, first + len)` towards the first position whose test fails. The range need not
be partitioned; the loop then ends wherever the halving leads. Over ascending elements the two
bounds enclose exactly the positions of a range of values (`lowerBoundIdx_le_iff`,
`lt_upperBoundIdx_iff`).
-/

namespace Zepto.Lib

/-- The halving loop; `len` rounds of `fuel` are enough. -/
def halve (test : Nat → Bool) : Nat → Nat → Nat → Nat
  | 0, first, _ => first
  | fuel + 1, first, len =>
    if len = 0 then first
    else if test (first + len / 2) then halve test fuel (first + len / 2 + 1) (len - len / 2 - 1)
    else halve test fuel first (len / 2)

/-- The position the search over `n` elements ends at. -/
def partitionPoint (test : Nat → Bool) (n : Nat) : Nat := halve test n 0 n

theorem halve_bounds (test : Nat → Bool) (fuel first len : Nat) :
    first ≤ halve test fuel first len ∧ halve test fuel first len ≤ first + len := by
  induction fuel generalizing first len with
  | zero => simp [halve]
  | succ fuel ih =>
    unfold halve
    split
    · omega
    split
    · have := ih (first + len / 2 + 1) (len - len / 2 - 1)
      omega
    · have := ih first (len / 2)
      omega

theorem partitionPoint_le (test : Nat → Bool) (n : Nat) : partitionPoint test n ≤ n := by
  have := (halve_bounds test n 0 n).2
  simpa [partitionPoint] using this

/-- `std::lower_bound`: the first of `n` elements not below `v`. -/
def lowerBoundIdx (f : Nat → Int) (n : Nat) (v : Int) : Nat :=
  partitionPoint (fun i => f i < v) n

/-- `std::upper_bound`: the first of `n` elements above `v`. -/
def upperBoundIdx (f : Nat → Int) (n : Nat) (v : Int) : Nat :=
  partitionPoint (fun i => !decide (v < f i)) n

/-! ## Over ascending elements -/

/-- If passing tests are downward closed, the loop ends after the last that passes. -/
theorem lt_halve_iff {test : Nat → Bool} {fuel first len i : Nat} (hfuel : len ≤ fuel)
    (hdown : ∀ i j, i ≤ j → j < first + len → test j → test i)
    (hfirst : first ≤ i) (hlast : i < first + len) :
    i < halve test fuel first len ↔ test i := by
  induction fuel generalizing first len with
  | zero => omega
  | succ fuel ih =>
    unfold halve
    rw [if_neg (by omega)]
    by_cases hmid : test (first + len / 2)
    · rw [if_pos hmid]
      by_cases hi : i ≤ first + len / 2
      · have hafter := halve_bounds test fuel (first + len / 2 + 1) (len - len / 2 - 1)
        exact iff_of_true (by omega) (hdown i _ hi (by omega) hmid)
      · apply ih (by omega) (fun i j hij hj => hdown i j hij (by omega)) (by omega) (by omega)
    · rw [if_neg hmid]
      by_cases hi : i < first + len / 2
      · exact ih (by omega) (fun i j hij hj => hdown i j hij (by omega)) hfirst hi
      · have hbefore := halve_bounds test fuel first (len / 2)
        refine iff_of_false (by omega) fun htest => hmid ?_
        exact hdown _ i (by omega) hlast htest

section

variable {f : Nat → Int} {n i : Nat}

theorem lt_partitionPoint_iff {test : Nat → Bool}
    (hdown : ∀ i j, i ≤ j → j < n → test j → test i) (hi : i < n) :
    i < partitionPoint test n ↔ test i := by
  apply lt_halve_iff (le_refl n) _ (Nat.zero_le i) (by omega)
  rwa [Nat.zero_add]

section

variable (hasc : ∀ i j, i ≤ j → j < n → f i ≤ f j) (v : Int) (hi : i < n)

include hasc v hi

theorem lowerBoundIdx_le_iff : lowerBoundIdx f n v ≤ i ↔ v ≤ f i := by
  have h : i < lowerBoundIdx f n v ↔ decide (f i < v) := by
    apply lt_partitionPoint_iff _ hi
    intro a b hab hb htest
    have := hasc a b hab hb
    simp only [decide_eq_true_eq] at htest ⊢
    omega
  rw [decide_eq_true_iff] at h
  omega

theorem lt_upperBoundIdx_iff : i < upperBoundIdx f n v ↔ f i ≤ v := by
  have h : i < upperBoundIdx f n v ↔ (!decide (v < f i)) := by
    apply lt_partitionPoint_iff _ hi
    intro a b hab hb htest
    have := hasc a b hab hb
    simp only [Bool.not_eq_true', decide_eq_false_iff_not] at htest ⊢
    omega
  rw [Bool.not_eq_true', decide_eq_false_iff_not] at h
  omega

end

end

end Zepto.Lib
