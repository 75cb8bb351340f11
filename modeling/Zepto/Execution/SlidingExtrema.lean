import Mathlib.Order.Bounds.Defs
import Zepto.Execution.WindowFunction

/-!
# Sliding minima and maxima

The queue of `sliding_min_partition` has, from the back to the front, ever earlier rows of the
frame with ever better values, and for each row of the frame one that is not earlier and not worse
(`QueueOk`). So its front is the extremum of the frame.
-/

namespace Zepto.Execution

open List Zepto.Lib

theorem dropWhile_eq_filter {α : Type} {p : α → Bool} {l : List α}
    (h : l.Pairwise fun a b => p b → p a) : l.dropWhile p = l.filter (!p ·) := by
  induction l with
  | nil => rfl
  | cons a l ih =>
    obtain ⟨ha, hl⟩ := pairwise_cons.mp h
    cases hp : p a with
    | true => simp [hp, ih hl]
    | false =>
      rw [dropWhile_cons_of_neg (by simp [hp])]
      refine (filter_eq_self.mpr fun b hb => ?_).symm
      rcases mem_cons.mp hb with rfl | hb
      · simp [hp]
      · simpa [hp] using ha b hb

theorem rdropWhile_eq_filter {α : Type} {p : α → Bool} {l : List α}
    (h : l.Pairwise fun a b => p a → p b) : l.rdropWhile p = l.filter (!p ·) := by
  rw [rdropWhile, dropWhile_eq_filter (pairwise_reverse.mpr h), filter_reverse, reverse_reverse]

/-! ## The queue -/

/-- The queue of the rows before `i` with the values `v`, for frames from `first` on. -/
structure QueueOk (r : Int → Int → Bool) (v : Nat → Int) (first i : Nat) (queue : List Nat) :
    Prop where
  sorted : queue.Pairwise (· > ·)
  inside : ∀ j ∈ queue, first ≤ j ∧ j < i
  better : queue.Pairwise fun j k => r (v k) (v j) = true
  covers : ∀ j, first ≤ j → j < i → ∃ k ∈ queue, j ≤ k ∧ r (v k) (v j) = true

section

variable {r : Int → Int → Bool} {frame : WindowFrame} {xs : List Int} {v : Nat → Int}
  {queue : List Nat} {first first' i : Nat}

theorem popBack_eq {x : Int} (hxs : ∀ j ∈ queue, xs[j]? = some (v j)) :
    popBack r xs x queue = some (queue.dropWhile fun j => r x (v j)) := by
  induction queue with
  | nil => rfl
  | cons j queue ih =>
    rw [forall_mem_cons] at hxs
    simp only [popBack, hxs.1, ih hxs.2, dropWhile_cons, Option.bind_eq_bind, Option.bind_some]
    split <;> rfl

variable (htotal : ∀ a b, r a b = true ∨ r b a = true)
  (htrans : ∀ a b c, r a b = true → r b c = true → r a c = true)

include htotal htrans

/-- Row `i` comes in at the back, where it takes the place of those that are not better. -/
theorem QueueOk.push (h : QueueOk r v first i queue) (hle : first ≤ first') (hle' : first' ≤ i) :
    QueueOk r v first' (i + 1)
      (i :: (queue.filter (first' ≤ ·)).filter fun j => !r (v i) (v j)) := by
  have hkept : ∀ j ∈ (queue.filter (first' ≤ ·)).filter fun j => !r (v i) (v j),
      j ∈ queue ∧ first' ≤ j ∧ r (v i) (v j) = false := by
    simp only [mem_filter, decide_eq_true_eq, Bool.not_eq_true']
    exact fun j hj => ⟨hj.1.1, hj.1.2, hj.2⟩
  refine ⟨pairwise_cons.mpr ⟨fun j hj => (h.inside j (hkept j hj).1).2, ?_⟩, fun j hj => ?_,
    pairwise_cons.mpr ⟨fun j hj => ?_, ?_⟩, fun j hj hji => ?_⟩
  · exact (h.sorted.filter _).filter _
  · rcases mem_cons.mp hj with rfl | hj
    · omega
    · have := (h.inside j (hkept j hj).1).2
      exact ⟨(hkept j hj).2.1, by omega⟩
  · exact (htotal _ _).resolve_left (by simp [(hkept j hj).2.2])
  · exact (h.better.filter _).filter _
  rcases Nat.lt_succ_iff_lt_or_eq.mp hji with hji | rfl
  · obtain ⟨k, hk, hjk, hbetter⟩ := h.covers j (by omega) hji
    cases hworse : r (v i) (v k) with
    | true => exact ⟨i, mem_cons_self, by omega, htrans _ _ _ hworse hbetter⟩
    | false => exact ⟨k, by simp [hk, hworse, hj.trans hjk], hjk, hbetter⟩
  · exact ⟨j, mem_cons_self, le_refl j, (htotal _ _).elim id id⟩

/-- One row: the queue stays right, and the value is the best of the frame. -/
theorem QueueOk.slidingRow (hv : ∀ j ≤ i, xs[j]? = some (v j)) (h : QueueOk r v first i queue)
    (hfirst : frameStart frame.preceding i = first') (hle : first ≤ first') (hle' : first' ≤ i) :
    ∃ queue' k, slidingRow r frame xs queue i = some (queue', v k) ∧
      QueueOk r v first' (i + 1) queue' ∧ first' ≤ k ∧ k ≤ i ∧
      ∀ j, first' ≤ j → j ≤ i → r (v k) (v j) := by
  have hexpire : queue.rdropWhile (fun j : Nat => (j : Int) < first') =
      queue.filter (first' ≤ ·) := by
    rw [rdropWhile_eq_filter (h.sorted.imp fun hjk hj => ?_)]
    · exact filter_congr fun j _ => by grind
    · simp only [decide_eq_true_eq] at *
      omega
  have hpop : popBack r xs (v i) (queue.filter (first' ≤ ·)) =
      some ((queue.filter (first' ≤ ·)).filter fun j => !r (v i) (v j)) := by
    rw [popBack_eq fun j hj => hv j (h.inside j (mem_filter.mp hj).1).2.le, dropWhile_eq_filter]
    exact (h.better.filter _).imp fun hbetter hk => htrans _ _ _ hk hbetter
  have hok := h.push htotal htrans hle hle'
  generalize hq : i :: (queue.filter (first' ≤ ·)).filter (fun j => !r (v i) (v j)) = queue' at hok
  obtain ⟨k, hk⟩ : ∃ k, queue'.getLast? = some k := ⟨_, hq ▸ getLast?_cons⟩
  obtain ⟨l, hl⟩ := getLast?_eq_some_iff.mp hk
  have hbest : ∀ j ∈ queue', r (v k) (v j) := by
    intro j hj
    rcases mem_append.mp (hl ▸ hj) with hj | hj
    · exact (pairwise_append.mp (hl ▸ hok.better)).2.2 j hj k mem_cons_self
    · rw [mem_singleton.mp hj]
      exact (htotal _ _).elim id id
  obtain ⟨hk1, hk2⟩ := hok.inside k (by simp [hl])
  refine ⟨queue', k, ?_, hok, hk1, by omega, fun j hj hji => ?_⟩
  · simp only [Execution.slidingRow, hfirst, hexpire, hv i (le_refl i), hpop,
      Option.bind_eq_bind, Option.bind_some, hq, hk, hv k (by omega)]
  · obtain ⟨m, hm, -, hbetter⟩ := hok.covers j hj (by omega)
    exact htrans _ _ _ (hbest m hm) hbetter

theorem QueueOk.scanRows {n : Nat} (hv : ∀ j < i + n, xs[j]? = some (v j)) {start : Nat → Nat}
    (hstart : ∀ j < i + n, frameStart frame.preceding j = start j)
    (hmono : ∀ j, start j ≤ start (j + 1)) (hle : ∀ j, start j ≤ j) (hfirst : first ≤ start i)
    (h : QueueOk r v first i queue) :
    ∃ out, scanRows (Execution.slidingRow r frame xs) queue (range' i n) = some out ∧
      Forall₂ (fun i x => (∃ k, start i ≤ k ∧ k ≤ i ∧ xs[k]? = some x) ∧
        ∀ j, start i ≤ j → j ≤ i → r x (v j)) (range' i n) out := by
  induction n generalizing i first queue with
  | zero => exact ⟨[], rfl, .nil⟩
  | succ n ih =>
    obtain ⟨queue', k, hrow, hok, hk1, hk2, hbest⟩ := h.slidingRow htotal htrans
      (fun j hj => hv j (by omega)) (hstart i (by omega)) hfirst (hle i)
    obtain ⟨out, hout, hrest⟩ := ih (fun j hj => hv j (by omega)) (fun j hj => hstart j (by omega))
      (hmono i) hok
    refine ⟨v k :: out, ?_, .cons ⟨⟨k, hk1, hk2, hv k (by omega)⟩, hbest⟩ hrest⟩
    simp [range'_succ, scanRows, hrow, hout]

/-- The values in the frame of row `i`, which ends there, from `start` on. -/
def frameValues (frame : WindowFrame) (input : List Int) (start i : Nat) : Set Int :=
  { x | ∃ j : Nat, start ≤ j ∧ (i : Int) - frame.preceding ≤ j ∧ j ≤ i ∧ input[j]? = some x }

theorem slidingExtremumPartition_best {input : List Int} {start stop : Nat}
    (hstop : stop ≤ input.length) (hfits : input.length < 2 ^ 61)
    (hp : 0 ≤ frame.preceding ∧ frame.preceding ≤ int64Max) :
    ∃ out, slidingExtremumPartition r frame input start stop = some out ∧
      Forall₂ (fun i x => x ∈ frameValues frame input start i ∧
        ∀ y ∈ frameValues frame input start i, r x y) (range' start (stop - start)) out := by
  have hv : ∀ j < 0 + (stop - start), ((input.take stop).drop start)[j]? =
      some (input.getD (start + j) 0) := by
    intro j hj
    have hlt : start + j < stop := by omega
    simp [getElem?_take_of_lt hlt, getElem?_eq_getElem (hlt.trans_le hstop)]
  have hempty : QueueOk r (fun j => input.getD (start + j) 0) 0 0 [] :=
    ⟨.nil, by simp, .nil, by omega⟩
  obtain ⟨out, hout, hbest⟩ := hempty.scanRows htotal htrans hv
    (fun j hj => frameStart_eq hp (by omega)) (fun j => by omega) (fun j => by omega) (by omega)
  refine ⟨out, ?_, ?_⟩
  · rw [slidingExtremumPartition, slice, if_pos hstop, range_eq_range']
    exact hout
  rw [range'_eq_map_range, forall₂_map_left_iff, range_eq_range']
  refine hbest.imp fun i x hx => ?_
  obtain ⟨⟨k, hk, hki, hxk⟩, hall⟩ := hx
  rw [getElem?_drop, getElem?_take] at hxk
  refine ⟨⟨start + k, by omega, by omega, by omega, ?_⟩, ?_⟩
  · split at hxk
    · exact hxk
    · cases hxk
  · rintro y ⟨j, hj, hij, hji, hy⟩
    have hbetter := hall (j - start) (by omega) (by omega)
    rwa [Nat.add_sub_cancel' hj, getD_eq_getElem?_getD, hy] at hbetter

end

/-- Up to the current row, sliding minima and maxima are those of the frame, and no access leaves
the partition or an empty queue. Memory holds less than `2 ^ 61` values of 8 bytes. -/
theorem sliding_extrema {frame : WindowFrame} {input : List Int} {start stop : Nat}
    (hstop : stop ≤ input.length) (hfits : input.length < 2 ^ 61)
    (hp : 0 ≤ frame.preceding ∧ frame.preceding ≤ int64Max) :
    (∃ out, WindowFunc.min.partition frame input start stop = some out ∧
      Forall₂ (fun i x => IsLeast (frameValues frame input start i) x)
        (range' start (stop - start)) out) ∧
    ∃ out, WindowFunc.max.partition frame input start stop = some out ∧
      Forall₂ (fun i x => IsGreatest (frameValues frame input start i) x)
        (range' start (stop - start)) out := by
  constructor
  · obtain ⟨out, hout, hbest⟩ := slidingExtremumPartition_best (r := (· ≤ ·)) (by simp; omega)
      (by simp; omega) hstop hfits hp
    refine ⟨out, hout, hbest.imp fun i x hx => ⟨hx.1, fun y hy => ?_⟩⟩
    simpa using hx.2 y hy
  obtain ⟨out, hout, hbest⟩ := slidingExtremumPartition_best (r := (· ≥ ·)) (by simp; omega)
    (by simp; omega) hstop hfits hp
  refine ⟨out, hout, hbest.imp fun i x hx => ⟨hx.1, fun y hy => ?_⟩⟩
  simpa using hx.2 y hy

theorem sliding_extrema_two :
    ∃ out, WindowFunc.min.partition { preceding := 1 } [5, 3, 4, 6] 0 4 = some out ∧
      Forall₂ (fun i x => IsLeast (frameValues { preceding := 1 } [5, 3, 4, 6] 0 i) x)
        (range' 0 (4 - 0)) out :=
  (sliding_extrema (by decide) (by decide) (by decide)).1

end Zepto.Execution
