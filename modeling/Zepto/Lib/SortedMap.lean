import Mathlib.Order.Lattice
import Mathlib.Data.List.Basic

/-!
# Ordered maps

A `SortedMap` is an association list whose keys strictly increase, so a key occurs once and
iteration follows the key order, as in `std::map`. `lowerBound k` is the first entry whose key
is not below `k`.
-/

namespace Zepto.Lib

open List

variable {α β : Type*} [LinearOrder α]

/-- An association list in strictly increasing key order. -/
structure SortedMap (α β : Type*) [LinearOrder α] where
  entries : List (α × β)
  sorted : entries.Pairwise (fun a b => a.1 < b.1)

/-- The entries with `k` bound to `v`, in key order. -/
def insertEntry (k : α) (v : β) : List (α × β) → List (α × β)
  | [] => [(k, v)]
  | (k', v') :: l =>
    if k < k' then (k, v) :: (k', v') :: l
    else if k = k' then (k, v) :: l
    else (k', v') :: insertEntry k v l

theorem key_of_mem_insertEntry {k : α} {v : β} {l : List (α × β)} {e : α × β}
    (he : e ∈ insertEntry k v l) : e.1 = k ∨ e ∈ l := by
  induction l with
  | nil => simp_all [insertEntry]
  | cons e' l ih =>
    simp only [insertEntry] at he
    split at he
    · simp only [mem_cons] at he ⊢
      rcases he with rfl | he
      · exact .inl rfl
      · exact .inr he
    split at he
    · simp only [mem_cons] at he ⊢
      rcases he with rfl | he
      · exact .inl rfl
      · exact .inr (.inr he)
    · simp only [mem_cons] at he ⊢
      rcases he with rfl | he
      · exact .inr (.inl rfl)
      · exact (ih he).imp id .inr

theorem sorted_insertEntry {k : α} {v : β} {l : List (α × β)}
    (hl : l.Pairwise (fun a b => a.1 < b.1)) :
    (insertEntry k v l).Pairwise (fun a b => a.1 < b.1) := by
  induction l with
  | nil => simp [insertEntry]
  | cons e l ih =>
    obtain ⟨hhead, htail⟩ := pairwise_cons.mp hl
    simp only [insertEntry]
    split
    next hlt =>
      refine pairwise_cons.mpr ⟨fun e he => ?_, hl⟩
      rcases mem_cons.mp he with rfl | he
      · exact hlt
      · exact hlt.trans (hhead e he)
    next hge =>
      split_ifs with heq
      · subst heq
        exact pairwise_cons.mpr ⟨hhead, htail⟩
      refine pairwise_cons.mpr ⟨fun e he => ?_, ih htail⟩
      rcases key_of_mem_insertEntry he with hk | he
      · exact hk ▸ lt_of_le_of_ne (not_lt.mp hge) (symm heq)
      · exact hhead e he

namespace SortedMap

def empty : SortedMap α β := ⟨[], .nil⟩

/-- Bind `k` to `v`, replacing an earlier binding. -/
def insert (m : SortedMap α β) (k : α) (v : β) : SortedMap α β :=
  ⟨insertEntry k v m.entries, sorted_insertEntry m.sorted⟩

/-- Remove the binding of `k`. -/
def erase (m : SortedMap α β) (k : α) : SortedMap α β :=
  ⟨m.entries.filter (fun e => e.1 ≠ k), m.sorted.filter _⟩

/-- The value bound to `k`. -/
def lookup (m : SortedMap α β) (k : α) : Option β :=
  (m.entries.find? fun e => e.1 = k).map Prod.snd

/-- The first entry whose key is at least `k`. -/
def lowerBound (m : SortedMap α β) (k : α) : Option (α × β) :=
  m.entries.find? (fun e => k ≤ e.1)

end SortedMap

end Zepto.Lib
