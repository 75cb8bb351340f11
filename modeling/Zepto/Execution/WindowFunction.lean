import Mathlib.Data.List.DropRight
import Zepto.Lib.Loops
import Zepto.Lib.Word

/-!
# Window functions

The functions of `window_function.h` go through the input partition by partition and write a value
for each row, so the output is the list of these values. A partition is a run of rows with equal
keys. An access outside an array is `none`: a function that returns has stayed inside its arrays.
-/

namespace Zepto.Execution

open List Zepto.Lib

/-- An element of an array, at an index that may be negative. -/
def load (a : List Int) (i : Int) : Option Int := if i < 0 then none else a[i.toNat]?

@[simp] theorem load_natCast (a : List Int) (i : Nat) : load a i = a[i]? := by simp [load]

/-- The elements from `start` to `stop`, each of which is read. -/
def slice (a : List Int) (start stop : Nat) : Option (List Int) :=
  if stop ≤ a.length then some ((a.take stop).drop start) else none

structure WindowFrame where
  preceding : Int := int64Max
  following : Int := 0

inductive WindowFunc where
  | rowNumber | rank | denseRank | sum | avg | min | max
  | lag (offset default : Int)
  | lead (offset default : Int)
  | ema (alpha : Float)
  | delta | ratio

/-! ## One partition -/

/-- A loop over rows with a state, which gives a value for each of them. -/
def scanRows {σ : Type} (step : σ → Nat → Option (σ × Int)) : σ → List Nat → Option (List Int)
  | _, [] => some []
  | s, i :: is => do
    let (s, v) ← step s i
    let vs ← scanRows step s is
    some (v :: vs)

/-- Row `i` of a partition and, unless it is the first, the row before it. -/
def withPrevious (input : List Int) (start i : Nat) : Option (Int × Option Int) := do
  let x ← load input i
  if i = start then some (x, none) else (load input (i - 1)).map fun y => (x, some y)

def frameStart (preceding : Int) (row : Nat) : Int :=
  if preceding = int64Max then 0 else max 0 (wrap64 (row - preceding))

theorem frameStart_eq {preceding : Int} (h : 0 ≤ preceding ∧ preceding ≤ int64Max) {i : Nat}
    (hi : i < 2 ^ 61) : frameStart preceding i = (i - preceding.toNat : Nat) := by
  unfold frameStart
  split
  · simp only [int64Max] at *
    omega
  · rw [wrap64, signed_unsigned64]
    all_goals simp only [int64Min, int64Max] at *; omega

def frameEnd (following : Int) (len row : Nat) : Int :=
  if following = int64Max then len else min len (wrap64 (row + following + 1))

def prefixSums : Int → List Int → List Int
  | acc, [] => [acc]
  | acc, x :: xs => acc :: prefixSums (wrap64 (acc + x)) xs

def slidingSumPartition (frame : WindowFrame) (input : List Int) (start stop : Nat) :
    Option (List Int) := do
  let sums := prefixSums 0 (← slice input start stop)
  (range (stop - start)).mapM fun i => do
    let upTo ← load sums (frameEnd frame.following (stop - start) i)
    let before ← load sums (frameStart frame.preceding i)
    some (wrap64 (upTo - before))

def slidingCountPartition (frame : WindowFrame) (start stop : Nat) : List Int :=
  (range (stop - start)).map fun i =>
    wrap64 (frameEnd frame.following (stop - start) i - frameStart frame.preceding i)

/-- The loop at the back of the queue, which has indices of the values `xs` and is listed from
there. -/
def popBack (r : Int → Int → Bool) (xs : List Int) (x : Int) : List Nat → Option (List Nat)
  | [] => some []
  | j :: queue => do
    if r x (← xs[j]?) then popBack r xs x queue else some (j :: queue)

/-- One row of `sliding_min_partition` (`r` is `≤`) and `sliding_max_partition` (`≥`). -/
def slidingRow (r : Int → Int → Bool) (frame : WindowFrame) (xs : List Int) (queue : List Nat)
    (i : Nat) : Option (List Nat × Int) := do
  let queue := queue.rdropWhile fun j : Nat => (j : Int) < frameStart frame.preceding i
  let queue := i :: (← popBack r xs (← xs[i]?) queue)
  let front ← queue.getLast?
  some (queue, ← xs[front]?)

/-- `sliding_min_partition`, `sliding_max_partition`. -/
def slidingExtremumPartition (r : Int → Int → Bool) (frame : WindowFrame) (input : List Int)
    (start stop : Nat) : Option (List Int) := do
  scanRows (slidingRow r frame (← slice input start stop)) [] (range (stop - start))

/-- The function on the rows from `start` to `stop`. -/
def WindowFunc.partition (frame : WindowFrame) (input : List Int) (start stop : Nat) :
    WindowFunc → Option (List Int)
  | .rowNumber => some ((range (stop - start)).map fun i => (i : Int) + 1)
  | .rank => scanRows (fun (rank : Int) i => do
      let (x, previous) ← withPrevious input start i
      let rank := if previous = some x then rank else i - start + 1
      some (rank, rank)) 1 (range' start (stop - start))
  | .denseRank => scanRows (fun (rank : Int) i => do
      let (x, previous) ← withPrevious input start i
      let rank := if previous.all (· = x) then rank else rank + 1
      some (rank, rank)) 1 (range' start (stop - start))
  | .sum => slidingSumPartition frame input start stop
  | .avg => do
    let sums ← slidingSumPartition frame input start stop
    some (zipWith (fun s c => if 0 < c then s.tdiv c else 0) sums
      (slidingCountPartition frame start stop))
  | .min => slidingExtremumPartition (· ≤ ·) frame input start stop
  | .max => slidingExtremumPartition (· ≥ ·) frame input start stop
  | .lag offset default => (range' start (stop - start)).mapM fun i =>
      let src := wrap64 (i - offset)
      if src < start then some default else load input src
  | .lead offset default => (range' start (stop - start)).mapM fun i =>
      let src := wrap64 (i + offset)
      if src ≥ stop then some default else load input src
  | .ema alpha => scanRows (fun (ema : Float) i => do
      let x := doubleOfInt (← load input i)
      let ema := if i = start then x else alpha * x + (1 - alpha) * ema
      some (ema, intOfDouble ema)) 0 (range' start (stop - start))
  | .delta => (range' start (stop - start)).mapM fun i => do
      let (x, previous) ← withPrevious input start i
      some (previous.elim x fun y => wrap64 (x - y))
  | .ratio => (range' start (stop - start)).mapM fun i => do
      let (x, previous) ← withPrevious input start i
      some (previous.elim 1000000 fun y =>
        if y = 0 then 0 else intOfDouble (doubleOfInt x / doubleOfInt y * 1000000))

/-! ## Partitions -/

def computePartitionBounds (keys : List Int) : List Nat :=
  0 :: (range' 1 (keys.length - 1)).filter (fun i => keys[i]? ≠ keys[i - 1]?) ++ [keys.length]

/-- The loop over the partitions in `compute` of every function. -/
def overPartitions (n : Nat) (partitionKeys : Option (List Int))
    (partition : Nat → Nat → Option (List Int)) : Option (List Int) :=
  match partitionKeys with
  | none => partition 0 n
  | some keys => do
    let bounds := computePartitionBounds keys
    let outputs ← (bounds.zip bounds.tail).mapM fun b => partition b.1 b.2
    some outputs.flatten

def WindowFunc.compute (fn : WindowFunc) (input : List Int) (frame : WindowFrame)
    (partitionKeys : Option (List Int)) : Option (List Int) :=
  overPartitions input.length partitionKeys (fn.partition frame input)

def samePartition (partitionKeys : Option (List Int)) (i j : Nat) : Bool :=
  partitionKeys.all fun keys => keys[i]? = keys[j]?

def Contiguous (keys : List Int) : Prop :=
  ∀ k < keys.length, ∀ j ≤ k, ∀ i ≤ j, keys[i]? = keys[k]? → keys[j]? = keys[i]?

section

variable {keys : List Int} {l : List Nat} {b : Nat × Nat}

theorem mem_zip_tail (h : b ∈ l.zip l.tail) : ∃ l1 l2, l = l1 ++ b.1 :: b.2 :: l2 := by
  induction l with
  | nil => cases h
  | cons a l ih =>
    cases l with
    | nil => cases h
    | cons c l =>
      rcases mem_cons.mp h with rfl | h
      · exact ⟨[], l, rfl⟩
      · obtain ⟨l1, l2, hl⟩ := ih h
        exact ⟨a :: l1, l2, congrArg (a :: ·) hl⟩

theorem flatten_ranges (a : Nat) (h : (a :: l).Pairwise (· ≤ ·)) :
    (((a :: l).zip l).map fun b => range' b.1 (b.2 - b.1)).flatten =
      range' a ((a :: l).getLast (cons_ne_nil a l) - a) := by
  induction l generalizing a with
  | nil => simp
  | cons c l ih =>
    have hac := rel_of_pairwise_cons h mem_cons_self
    have hlast := (pairwise_cons.mp h.of_cons).1
    have hle : c ≤ (c :: l).getLast (cons_ne_nil c l) := by
      rcases mem_cons.mp (getLast_mem (cons_ne_nil c l)) with heq | hmem
      · exact heq.ge
      · exact hlast _ hmem
    rw [zip_cons_cons, map_cons, flatten_cons, ih c h.of_cons, getLast_cons (cons_ne_nil c l)]
    obtain ⟨m, rfl⟩ := Nat.exists_eq_add_of_le hac
    rw [Nat.add_sub_cancel_left, range'_append_1]
    congr 1
    omega

theorem bounds_pairwise (h : keys ≠ []) : (computePartitionBounds keys).Pairwise (· < ·) := by
  have hpos := length_pos_of_ne_nil h
  refine pairwise_append.mpr ⟨pairwise_cons.mpr ⟨fun i hi => ?_, ?_⟩, by simp, fun i hi j hj => ?_⟩
  · have := mem_range'_1.mp (mem_filter.mp hi).1
    omega
  · exact .filter _ pairwise_lt_range'
  rw [mem_singleton.mp hj]
  rcases mem_cons.mp hi with rfl | hi
  · exact hpos
  · have := mem_range'_1.mp (mem_filter.mp hi).1
    omega

/-- What lies between two bounds is a run of equal keys that does not go on. -/
theorem run_of_bounds
    (h : b ∈ (computePartitionBounds keys).zip (computePartitionBounds keys).tail) :
    b.1 ≤ b.2 ∧ b.2 ≤ keys.length ∧ (∀ k, b.1 < k → k < b.2 → keys[k]? = keys[k - 1]?) ∧
      (b.1 = 0 ∨ b.1 = b.2 ∨ keys[b.1]? ≠ keys[b.1 - 1]?) ∧
      (b.2 = keys.length ∨ keys[b.2]? ≠ keys[b.2 - 1]?) := by
  by_cases hkeys : keys = []
  · subst hkeys
    obtain rfl := mem_singleton.mp h
    simp
  obtain ⟨l1, l2, hl⟩ := mem_zip_tail h
  have hsorted := hl ▸ bounds_pairwise hkeys
  obtain ⟨-, hrest, hfirst⟩ := pairwise_append.mp hsorted
  obtain ⟨hb1, hb2⟩ := pairwise_cons.mp hrest
  have hb := hb1 _ mem_cons_self
  have hmem (k : Nat) : k ∈ l1 ++ b.1 :: b.2 :: l2 ↔
      k = 0 ∨ (1 ≤ k ∧ k < keys.length ∧ keys[k]? ≠ keys[k - 1]?) ∨ k = keys.length := by
    rw [← hl, computePartitionBounds]
    grind
  have hend : b.2 ≤ keys.length := by
    rcases (hmem b.2).mp (by simp) with h | h | h <;> omega
  refine ⟨hb.le, hend, fun k hk1 hk2 => ?_, ?_, ?_⟩
  · by_contra hne
    have hk := (hmem k).mpr (.inr (.inl ⟨by omega, by omega, hne⟩))
    rcases mem_append.mp hk with hk | hk
    · have := hfirst k hk b.1 mem_cons_self
      omega
    rcases mem_cons.mp hk with rfl | hk
    · omega
    · rcases mem_cons.mp hk with rfl | hk
      · omega
      · have := (pairwise_cons.mp hb2).1 k hk
        omega
  · rcases (hmem b.1).mp (by simp) with h | h | h
    · exact .inl h
    · exact .inr (.inr h.2.2)
    · omega
  · rcases (hmem b.2).mp (by simp) with h | h | h
    · omega
    · exact .inr h.2.2
    · exact .inl h

/-- If equal keys stand side by side, the runs are the partitions. -/
theorem partition_of_bounds (hkeys : Contiguous keys)
    (h : b ∈ (computePartitionBounds keys).zip (computePartitionBounds keys).tail) {i j : Nat}
    (hi : b.1 ≤ i) (hi' : i < b.2) (hj : j < keys.length) :
    keys[i]? = keys[j]? ↔ b.1 ≤ j ∧ j < b.2 := by
  obtain ⟨-, hend, hrun, hfirst, hlast⟩ := run_of_bounds h
  have hsame : ∀ k, b.1 ≤ k → k < b.2 → keys[k]? = keys[b.1]? := by
    intro k hk hk'
    induction k, hk using Nat.le_induction with
    | base => rfl
    | succ k hk ih => rw [hrun (k + 1) (by omega) hk', Nat.add_sub_cancel, ih (by omega)]
  constructor
  · intro heq
    constructor
    · by_contra hlt
      have hne := hfirst.resolve_left (by omega) |>.resolve_left (by omega)
      refine hne ?_
      rw [← hsame i hi hi', heq]
      exact (hkeys i (by omega) (b.1 - 1) (by omega) j (by omega) heq.symm).symm
    · by_contra hle
      refine hlast.resolve_left (by omega) ?_
      rw [hkeys j hj b.2 (by omega) i (by omega) heq, hsame i hi hi',
        hsame (b.2 - 1) (by omega) (by omega)]
  · rintro ⟨hj1, hj2⟩
    rw [hsame i hi hi', hsame j hj1 hj2]

end

/-- A loop that is right on every partition is right on all rows. -/
theorem overPartitions_eq {n : Nat} {partitionKeys : Option (List Int)}
    {partition : Nat → Nat → Option (List Int)} {v : Nat → Int}
    (hkeys : ∀ keys ∈ partitionKeys, keys.length = n ∧ Contiguous keys)
    (h : ∀ start stop, stop ≤ n → (∀ i j, start ≤ i → i < stop → j < n →
        (samePartition partitionKeys i j ↔ start ≤ j ∧ j < stop)) →
      partition start stop = some ((range' start (stop - start)).map v)) :
    overPartitions n partitionKeys partition = some ((range n).map v) := by
  cases partitionKeys with
  | none =>
    rw [range_eq_range']
    exact h 0 n (le_refl n) fun i j _ _ hj => by simp [samePartition, hj]
  | some keys =>
    obtain ⟨rfl, hcont⟩ := hkeys keys rfl
    have hparts : ((computePartitionBounds keys).zip (computePartitionBounds keys).tail).mapM
        (fun b => partition b.1 b.2) = some _ := mapM_ok fun b hb => by
      obtain ⟨-, hend, -⟩ := run_of_bounds hb
      refine h b.1 b.2 hend fun i j hi hi' hj => ?_
      simpa [samePartition] using partition_of_bounds hcont hb hi hi' hj
    have hsorted : (computePartitionBounds keys).Pairwise (· ≤ ·) := by
      by_cases hnil : keys = []
      · subst hnil
        decide
      · exact (bounds_pairwise hnil).imp le_of_lt
    have hall : (((computePartitionBounds keys).zip (computePartitionBounds keys).tail).map
        fun b => range' b.1 (b.2 - b.1)).flatten = range keys.length := by
      rw [range_eq_range']
      exact (flatten_ranges 0 hsorted).trans (by simp)
    rw [← hall, map_flatten, map_map]
    exact congrArg (· >>= fun outputs => some outputs.flatten) hparts

end Zepto.Execution
