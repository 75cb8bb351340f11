import Mathlib.Data.List.Sort
import Zepto.Execution.WindowFunction

/-!
# Sliding sums and counts

`sliding_sum_partition` takes the difference of two prefix sums. With bounds that are not negative
and an input that fits into memory, both are there and their difference is the sum over the frame
(`slidingSumPartition_eq`).
-/

namespace Zepto.Execution

open List Zepto.Lib

/-- The rows of the frame of row `i`. -/
def frameRows (partitionKeys : Option (List Int)) (frame : WindowFrame) (n i : Nat) : List Nat :=
  (range n).filter fun j => samePartition partitionKeys i j ∧
    (i : Int) - frame.preceding ≤ j ∧ (j : Int) ≤ i + frame.following

theorem filter_range_between {n a b : Nat} {p : Nat → Bool} (hab : a ≤ b) (hb : b ≤ n)
    (h : ∀ j < n, p j ↔ a ≤ j ∧ j < b) : (range n).filter p = range' a (b - a) := by
  refine (pairwise_lt_range.filter p).eq_of_mem_iff pairwise_lt_range' fun j => ?_
  rw [mem_filter, mem_range, mem_range'_1, and_congr_right (h j)]
  omega

theorem map_getD_range' {l : List Int} {a m : Nat} (h : a + m ≤ l.length) :
    (range' a m).map (l.getD · 0) = (l.drop a).take m := by
  refine ext_getElem (by simp; omega) fun i hi _ => ?_
  have : a + i < l.length := by simp at hi; omega
  simp [getElem?_eq_getElem this]

theorem getElem?_prefixSums {acc : Int} {xs : List Int} {k : Nat} (hk : k ≤ xs.length)
    (hacc : wrap64 acc = acc) :
    (prefixSums acc xs)[k]? = some (wrap64 (acc + (xs.take k).sum)) := by
  induction xs generalizing acc k with
  | nil =>
    obtain rfl : k = 0 := by simpa using hk
    simp [prefixSums, hacc]
  | cons x xs ih =>
    cases k with
    | zero => simp [prefixSums, hacc]
    | succ k =>
      have hstep := ih (Nat.le_of_succ_le_succ hk) (wrap64_wrap64 (acc + x))
      rw [wrap64_add_left, add_assoc] at hstep
      simpa [prefixSums] using hstep

section

variable {frame : WindowFrame} {len i : Nat}

/-- Bounds that are not negative and, unless `UNBOUNDED`, leave room for a row number. -/
structure WindowFrame.Proper (frame : WindowFrame) : Prop where
  preceding : 0 ≤ frame.preceding ∧ frame.preceding ≤ int64Max
  following : 0 ≤ frame.following ∧ (frame.following < 2 ^ 62 ∨ frame.following = int64Max)

theorem frameEnd_eq (h : frame.Proper) (hi : i < len) (hlen : len < 2 ^ 61) :
    frameEnd frame.following len i = (min len (i + frame.following.toNat + 1) : Nat) := by
  obtain ⟨hlo, hhi⟩ := h.following
  unfold frameEnd
  split
  · simp only [int64Max] at *
    omega
  · rw [wrap64, signed_unsigned64]
    all_goals simp only [int64Min, int64Max] at *; omega

end

/-! ## The functions -/

section

variable {frame : WindowFrame} {input : List Int} {partitionKeys : Option (List Int)}
  {start stop i : Nat} (h : frame.Proper) (hfits : input.length < 2 ^ 61)
  (hstop : stop ≤ input.length)
  (hpart : ∀ i j, start ≤ i → i < stop → j < input.length →
    (samePartition partitionKeys i j ↔ start ≤ j ∧ j < stop))

include h hfits hstop hpart

theorem frameRows_eq (hi : i < stop - start) : ∃ lo hi : Nat, frameStart frame.preceding i = lo ∧
      frameEnd frame.following (stop - start) i = hi ∧ lo < hi ∧ hi ≤ stop - start ∧
      frameRows partitionKeys frame input.length (start + i) = range' (start + lo) (hi - lo) := by
  have hlo := h.preceding
  have hhi := h.following
  have hfits' : i < 2 ^ 61 := by omega
  refine ⟨_, _, frameStart_eq h.preceding hfits', frameEnd_eq h hi (by omega), by omega, by omega,
    ?_⟩
  generalize hfirst : i - frame.preceding.toNat = lo
  generalize hlast : min (stop - start) (i + frame.following.toNat + 1) = hi
  rw [← Nat.add_sub_add_left start hi lo]
  refine filter_range_between (by omega) (by omega) fun j hj => ?_
  simp only [decide_eq_true_eq, hpart (start + i) j (by omega) (by omega) hj]
  omega

theorem slidingSumPartition_eq : slidingSumPartition frame input start stop =
    some ((range' start (stop - start)).map fun i =>
      wrap64 ((frameRows partitionKeys frame input.length i).map (input.getD · 0)).sum) := by
  rw [range'_eq_map_range, map_map, slidingSumPartition, slice, if_pos hstop]
  refine mapM_ok fun i hi => ?_
  have hrow := mem_range.mp hi
  obtain ⟨lo, hi, hstart, hend, hlt, hlen, hrows⟩ := frameRows_eq h hfits hstop hpart hrow
  have hxs : ((input.take stop).drop start).length = stop - start := by simp [hstop]
  generalize hx : (input.take stop).drop start = xs at hxs
  rw [hend, hstart, load_natCast, load_natCast, getElem?_prefixSums (by omega) (by decide),
    getElem?_prefixSums (by omega) (by decide)]
  have hsplit : xs.take hi = xs.take lo ++ (xs.drop lo).take (hi - lo) := by
    rw [← take_add, Nat.add_sub_cancel' hlt.le]
  have hframe : (range' (start + lo) (hi - lo)).map (input.getD · 0) =
      (xs.drop lo).take (hi - lo) := by
    rw [map_getD_range' (by omega), ← hx, drop_drop, drop_take, take_take]
    congr 1
    omega
  simp only [Function.comp, hrows, hframe, hsplit, wrap64_eq_bmod]
  simp

theorem slidingCountPartition_eq : slidingCountPartition frame start stop =
    (range' start (stop - start)).map fun i =>
      ((frameRows partitionKeys frame input.length i).length : Int) := by
  rw [range'_eq_map_range, map_map]
  refine map_congr_left fun i hi => ?_
  obtain ⟨lo, hi, hstart, hend, hlt, hlen, hrows⟩ :=
    frameRows_eq h hfits hstop hpart (mem_range.mp hi)
  rw [Function.comp, hrows, hend, hstart, length_range', Int.ofNat_sub hlt.le]
  exact signed_unsigned64 (by simp only [int64Min]; omega) (by simp only [int64Max]; omega)

theorem frameRows_ne_nil (hi : start ≤ i) (hi' : i < stop) :
    0 < (frameRows partitionKeys frame input.length i).length := by
  obtain ⟨k, rfl⟩ := Nat.exists_eq_add_of_le hi
  obtain ⟨lo, hi, -, -, hlt, -, hrows⟩ := frameRows_eq h hfits hstop hpart (i := k) (by omega)
  rw [hrows, length_range']
  omega

end

/-- Sums, counts and averages are those of the frame, and every access is inside its array. Memory
holds less than `2 ^ 61` values of 8 bytes. -/
theorem sliding_sums {frame : WindowFrame} (h : frame.Proper) {input : List Int}
    (hfits : input.length < 2 ^ 61) {partitionKeys : Option (List Int)}
    (hkeys : ∀ keys ∈ partitionKeys, keys.length = input.length ∧ Contiguous keys) :
    let n := input.length
    let rows := frameRows partitionKeys frame n
    let total i := wrap64 ((rows i).map (input.getD · 0)).sum
    WindowFunc.sum.compute input frame partitionKeys = some ((range n).map total) ∧
      overPartitions n partitionKeys
        (fun start stop => some (slidingCountPartition frame start stop)) =
        some ((range n).map fun i => ((rows i).length : Int)) ∧
      WindowFunc.avg.compute input frame partitionKeys =
        some ((range n).map fun i => (total i).tdiv (rows i).length) := by
  refine ⟨?_, ?_, ?_⟩
  · exact overPartitions_eq hkeys fun start stop hstop hpart =>
      slidingSumPartition_eq h hfits hstop hpart
  · exact overPartitions_eq hkeys fun start stop hstop hpart =>
      congrArg some (slidingCountPartition_eq h hfits hstop hpart)
  refine overPartitions_eq hkeys fun start stop hstop hpart => ?_
  rw [WindowFunc.partition, slidingSumPartition_eq h hfits hstop hpart,
    slidingCountPartition_eq h hfits hstop hpart]
  refine congrArg some ?_
  rw [zipWith_map, zipWith_self]
  refine map_congr_left fun i hi => if_pos ?_
  obtain ⟨hi, hi'⟩ := mem_range'_1.mp hi
  exact Int.natCast_pos.mpr (frameRows_ne_nil h hfits hstop hpart hi (by omega))

/-- The row before is in the frame unless it is in another partition. -/
theorem sliding_sums_three : WindowFunc.sum.compute [1, 2, 3] { preceding := 1 } (some [7, 7, 8]) =
    some [1, 3, 3] := by
  refine (sliding_sums ⟨by decide, by decide⟩ (by decide) ?_).1.trans (by decide +kernel)
  rintro keys ⟨⟩
  exact ⟨rfl, by unfold Contiguous; decide⟩

end Zepto.Execution
