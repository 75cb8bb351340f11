import Mathlib.Data.List.Perm.Basic
import Mathlib.Tactic.Ring

/-!
# Arrays that are kept row by row

`swapRemove` takes an element away by moving the last one into its place. A flat array holds the
rows of a list one after another, all of one width: `rowAt` is a row, `writeAt` copies a row over
another. Writing a row is setting an element of the list (`writeAt_flatMap`), and cutting the array
is cutting the list (`take_flatMap`).
-/

namespace Zepto.Lib

open List

variable {α β : Type*}

section

variable {l : List α} {a : α} {i : Nat}

/-- The last element takes the place of the `i`-th. -/
def swapRemove (l : List α) (i : Nat) : List α :=
  match l.getLast? with
  | none => []
  | some a => (l.set i a).dropLast

theorem length_swapRemove (l : List α) (i : Nat) : (swapRemove l i).length = l.length - 1 := by
  unfold swapRemove
  split
  next h =>
    rw [getLast?_eq_none_iff.mp h]
    rfl
  · rw [length_dropLast, length_set]

theorem swapRemove_eq (h : l.getLast? = some a) (i : Nat) :
    swapRemove l i = (l.set i a).take (l.length - 1) := by
  rw [swapRemove, h]
  exact (dropLast_eq_take ..).trans (by rw [length_set])

theorem getElem?_swapRemove (hi : i < l.length) (j : Nat) : (swapRemove l i)[j]? =
      if j + 1 < l.length then if j = i then l.getLast? else l[j]? else none := by
  have hne : l ≠ [] := ne_nil_of_length_pos (by omega)
  rw [swapRemove_eq (getLast?_eq_some_getLast hne), getElem?_take]
  by_cases hj : j + 1 < l.length
  · rw [if_pos hj, if_pos (by omega), getElem?_set]
    by_cases hji : j = i
    · rw [if_pos hji, if_pos hji.symm, if_pos hi, getLast?_eq_some_getLast hne]
    · rw [if_neg hji, if_neg (Ne.symm hji)]
  · rw [if_neg hj, if_neg (by omega)]

theorem mem_of_mem_swapRemove (h : a ∈ swapRemove l i) : a ∈ l := by
  unfold swapRemove at h
  split at h
  · cases h
  rename_i b hb
  rcases mem_or_eq_of_mem_set (dropLast_subset _ h) with h | rfl
  · exact h
  · exact mem_of_getLast? hb

theorem perm_swapRemove (h : l[i]? = some a) : (a :: swapRemove l i).Perm l := by
  obtain ⟨hi, rfl⟩ := List.getElem?_eq_some_iff.mp h
  obtain rfl | ⟨l, b, rfl⟩ := eq_nil_or_concat' l
  · cases h
  unfold swapRemove
  simp only [getLast?_concat]
  by_cases hlast : i < l.length
  · rw [set_append_left _ _ hlast, dropLast_concat, getElem_append_left hlast]
    calc l[i] :: l.set i b
      _ ~ l[i] :: b :: l.eraseIdx i := (set_perm_cons_eraseIdx hlast b).cons _
      _ ~ b :: l[i] :: l.eraseIdx i := .swap ..
      _ ~ b :: l := (getElem_cons_eraseIdx_perm hlast).cons _
      _ ~ l ++ [b] := (perm_append_singleton b l).symm
  · rw [length_append, length_singleton] at hi
    obtain rfl : i = l.length := by omega
    simpa using (perm_append_singleton b l).symm

theorem map_swapRemove (f : α → β) (l : List α) (i : Nat) :
    (swapRemove l i).map f = swapRemove (l.map f) i := by
  unfold swapRemove
  rw [getLast?_map]
  cases l.getLast? with
  | none => rfl
  | some a => simp

theorem map_modify_of_eq {f : α → β} {g : α → α} (h : ∀ a, f (g a) = f a) (i : Nat) (l : List α) :
    (l.modify i g).map f = l.map f := by
  refine ext_getElem? fun j => ?_
  rw [getElem?_map, getElem?_map, getElem?_modify]
  cases l[j]? with
  | none => rfl
  | some a =>
    show some (f (if i = j then g a else a)) = some (f a)
    split
    · rw [h]
    · rfl

/-! ## Rows of a flat array -/

/-- The `i`-th row of an array whose rows have `width` elements. -/
def rowAt (width : Nat) (v : List α) (i : Nat) : List α := (v.drop (i * width)).take width

/-- `std::copy` to an offset. -/
def writeAt (v : List α) (off : Nat) (xs : List α) : List α :=
  v.take off ++ (xs ++ v.drop (off + xs.length))

end

section Flat

variable {f : α → List β} {k : Nat} {l : List α}

variable (hf : ∀ a ∈ l, (f a).length = k)

include hf

theorem length_flatMap_rows : (l.flatMap f).length = l.length * k := by
  rw [length_flatMap, map_congr_left hf]
  simp

theorem flatMap_split {i : Nat} {a : α} (hi : l[i]? = some a) :
    l.flatMap f = (l.take i).flatMap f ++ (f a ++ (l.drop (i + 1)).flatMap f) ∧
      ((l.take i).flatMap f).length = i * k := by
  obtain ⟨hlt, ha⟩ := List.getElem?_eq_some_iff.mp hi
  constructor
  · conv_lhs => rw [← take_append_drop i l, drop_eq_getElem_cons hlt, ha]
    rw [flatMap_append, flatMap_cons]
  · rw [length_flatMap_rows fun a ha => hf a (mem_of_mem_take ha), length_take, min_eq_left hlt.le]

theorem rowAt_flatMap {i : Nat} {a : α} (hi : l[i]? = some a) : rowAt k (l.flatMap f) i = f a := by
  obtain ⟨heq, hlen⟩ := flatMap_split hf hi
  rw [rowAt, heq, drop_left' hlen, take_left' (hf a (mem_of_getElem? hi))]

theorem take_flatMap (n : Nat) : (l.flatMap f).take (n * k) = (l.take n).flatMap f := by
  have hlen := length_flatMap_rows fun a ha => hf a (mem_of_mem_take (i := n) ha)
  conv_lhs => rw [← take_append_drop n l, flatMap_append]
  by_cases hn : n ≤ l.length
  · exact take_left' (by rw [hlen, length_take, min_eq_left hn])
  rw [drop_eq_nil_of_le (by omega), flatMap_nil, append_nil]
  refine take_of_length_le ?_
  rw [hlen]
  exact Nat.mul_le_mul_right k (by rw [length_take]; omega)

/-- Writing a row over another sets an element of the list. -/
theorem writeAt_flatMap {i : Nat} (hi : i < l.length) {a : α} (ha : (f a).length = k) :
    writeAt (l.flatMap f) (i * k) (f a) = (l.set i a).flatMap f := by
  obtain ⟨heq, hlen⟩ := flatMap_split hf (getElem?_eq_getElem hi)
  have hmid : ((l.take i).flatMap f ++ f l[i]).length = i * k + (f a).length := by
    rw [length_append, hlen, hf _ (getElem_mem hi), ha]
  rw [writeAt, heq, take_left' hlen, ← append_assoc ((l.take i).flatMap f) (f l[i]),
    drop_left' hmid, set_eq_take_append_cons_drop, if_pos hi, flatMap_append,
    flatMap_cons]

/-- Moving the last row into the place of another and cutting the array. -/
theorem swapRemove_flatMap {i : Nat} (hi : i < l.length) :
    (writeAt (l.flatMap f) (i * k) (rowAt k (l.flatMap f) (l.length - 1))).take
      ((l.length - 1) * k) = (swapRemove l i).flatMap f := by
  have hne : l ≠ [] := ne_nil_of_length_pos (by omega)
  have hlast : l[l.length - 1]? = some (l.getLast hne) := by
    rw [← getLast?_eq_getElem?, getLast?_eq_some_getLast hne]
  have hmem : l.getLast hne ∈ l := getLast_mem hne
  rw [rowAt_flatMap hf hlast, writeAt_flatMap hf hi (hf _ hmem),
    swapRemove_eq (getLast?_eq_some_getLast hne)]
  refine take_flatMap (fun b hb => ?_) _
  rcases mem_or_eq_of_mem_set hb with hb | rfl
  · exact hf b hb
  · exact hf _ hmem

end Flat

end Zepto.Lib
