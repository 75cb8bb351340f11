import Mathlib.Data.Finset.Sort
import Zepto.Lib.Successor

/-!
# Groups in key order

Rows that are taken one by one into a `SortedMap`, each into the state of its key. The map then
lists every key that occurs once, in order, with the fold of its rows (`entries_groupSorted`).
-/

namespace Zepto.Lib

open List

namespace SortedMap

variable {κ σ α : Type} [LinearOrder κ] {m : SortedMap κ σ} {k k' : κ} {v : σ}

theorem lookup_eq_some_iff : m.lookup k = some v ↔ (k, v) ∈ m.entries := by
  unfold lookup
  rw [Option.map_eq_some_iff]
  constructor
  · rintro ⟨e, he, rfl⟩
    have hk := find?_some he
    rw [decide_eq_true_eq] at hk
    subst hk
    exact mem_of_find?_eq_some he
  · intro hmem
    cases hfind : m.entries.find? fun e => e.1 = k with
    | none => simpa using find?_eq_none.mp hfind _ hmem
    | some e =>
      have hk := find?_some hfind
      exact ⟨e, rfl, by rw [eq_of_key_eq (mem_of_find?_eq_some hfind) hmem (by simpa using hk)]⟩

theorem lookup_insert : (m.insert k v).lookup k' = if k' = k then some v else m.lookup k' := by
  ext w
  rw [lookup_eq_some_iff, mem_insert]
  split_ifs with h
  · simp [h, eq_comm]
  · simp [h, lookup_eq_some_iff]

/-- A map is the list of its keys in order, each with its value. -/
theorem entries_eq_sort {ks : Finset κ} {f : κ → σ}
    (h : ∀ k, m.lookup k = if k ∈ ks then some (f k) else none) :
    m.entries = ks.sort.map fun k => (k, f k) := by
  have hmem (k : κ) (v : σ) : (k, v) ∈ m.entries ↔ k ∈ ks ∧ f k = v := by
    rw [← lookup_eq_some_iff, h]
    simp
  have hlt : (m.entries.map Prod.fst).Pairwise (· < ·) := pairwise_map.mpr m.sorted
  have hkeys : (m.entries.map Prod.fst).toFinset = ks := by
    ext k
    simp [hmem]
  have hsort := (toFinset_sort (· ≤ ·) hlt.nodup).mpr (hlt.imp le_of_lt)
  rw [← hkeys, hsort, map_map]
  conv_lhs => rw [← map_id m.entries]
  refine map_congr_left fun e he => ?_
  exact Prod.ext rfl ((hmem e.1 e.2).mp he).2.symm

variable (key : α → κ) (init : α → σ) (step : σ → α → σ)

/-- Take a row into the state of its key, which its first row starts. -/
def groupInto (m : SortedMap κ σ) (a : α) : SortedMap κ σ :=
  m.insert (key a) (step ((m.lookup (key a)).getD (init a)) a)

def groupSorted (rows : List α) : SortedMap κ σ := rows.foldl (groupInto key init step) .empty

variable {key init step} {rows : List α} [DecidableEq κ]

theorem lookup_groupSorted (k : κ) : (groupSorted key init step rows).lookup k =
      (rows.filter fun a => key a = k).head?.map fun x =>
        (rows.filter fun a => key a = k).foldl step (init x) := by
  induction rows using reverseRecOn with
  | nil => rfl
  | append_singleton rows a ih =>
    unfold groupSorted at ih ⊢
    rw [foldl_append, foldl_cons, foldl_nil, groupInto, lookup_insert, filter_append]
    split_ifs with hk
    · subst hk
      rw [ih]
      cases rows.filter fun b => key b = key a <;> simp
    · rw [ih]
      simp [Ne.symm hk]

/-- Every key that occurs, once and in order, with the fold of its rows. -/
theorem entries_groupSorted {f : κ → σ} (hf : ∀ k x xs,
      (rows.filter fun a => key a = k) = x :: xs → f k = (x :: xs).foldl step (init x)) :
    (groupSorted key init step rows).entries =
      (rows.map key).toFinset.sort.map fun k => (k, f k) := by
  refine entries_eq_sort fun k => ?_
  have hmem : k ∈ (rows.map key).toFinset ↔ (rows.filter fun a => key a = k) ≠ [] := by
    simp
  rw [lookup_groupSorted]
  cases hgroup : rows.filter fun a => key a = k with
  | nil =>
    rw [if_neg (by simp [hmem, hgroup])]
    rfl
  | cons x xs =>
    rw [if_pos (by simp [hmem, hgroup]), hf k x xs hgroup]
    rfl

end SortedMap

end Zepto.Lib
