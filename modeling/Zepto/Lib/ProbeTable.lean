import Mathlib.Data.List.Basic
import Mathlib.Logic.Function.Basic

/-!
# Open addressing

A table of slots in which a key is looked for from the slot of its hash on, round the table, until
its entry or an empty slot. `Represents` says what the table holds and that every entry is where
the search for its key ends; setting the slot a search has ended at keeps it (`Represents.set`).
-/

namespace Zepto.Lib

open List

section

variable {κ V : Type}

def entryAt (t : List (Option (κ × V))) (s : Nat) : Option (κ × V) := t[s]?.join

theorem entryAt_set {t : List (Option (κ × V))} {s : Nat} (hs : s < t.length)
    (e : Option (κ × V)) (s' : Nat) :
    entryAt (t.set s e) s' = if s' = s then e else entryAt t s' := by
  unfold entryAt
  split <;> simp_all [eq_comm]

variable [DecidableEq κ] (hash : κ → Nat)

/-- The slots in the order in which a search visits them. -/
def probes (capacity : Nat) (k : κ) : List Nat :=
  (range capacity).map fun j => (hash k + j) % capacity

def stopsAt (t : List (Option (κ × V))) (k : κ) (s : Nat) : Bool :=
  (entryAt t s).all fun e => e.1 = k

/-- Where the search for a key ends; none if it goes round for ever. -/
def slotOf (t : List (Option (κ × V))) (k : κ) : Option Nat :=
  (probes hash t.length k).find? (stopsAt t k)

/-- The table holds a map, each value where the search for its key ends. -/
structure Represents (t : List (Option (κ × V))) (m : κ → Option V) : Prop where
  placed : ∀ {s k v}, entryAt t s = some (k, v) → slotOf hash t k = some s ∧ m k = some v
  stored : ∀ {k v}, m k = some v → ∃ s, entryAt t s = some (k, v)

variable {hash} {t : List (Option (κ × V))} {m : κ → Option V} {k : κ} {s : Nat}

theorem slotOf_eq_some : slotOf hash t k = some s ↔ stopsAt t k s ∧
    ∃ as bs, probes hash t.length k = as ++ s :: bs ∧ ∀ a ∈ as, stopsAt t k a = false := by
  simp [slotOf, find?_eq_some_iff_append]

theorem lt_of_slotOf (h : slotOf hash t k = some s) : s < t.length := by
  obtain ⟨j, hj, rfl⟩ := mem_map.mp (mem_of_find?_eq_some h)
  exact Nat.mod_lt _ (Nat.zero_lt_of_lt (mem_range.mp hj))

/-- With an empty slot every search ends. -/
theorem exists_slotOf (h : t.countP Option.isSome < t.length) (k : κ) :
    ∃ s, slotOf hash t k = some s := by
  obtain ⟨s, hlt, hs⟩ : ∃ s < t.length, entryAt t s = none := by
    by_contra hfull
    refine Nat.ne_of_lt h (countP_eq_length.mpr fun e he => ?_)
    obtain ⟨s, hlt, rfl⟩ := getElem_of_mem he
    by_contra hnone
    exact hfull ⟨s, hlt, by simpa [entryAt, getElem?_eq_getElem hlt] using hnone⟩
  have hmem : s ∈ probes hash t.length k := by
    have hmod := Nat.mod_lt (hash k) (Nat.zero_lt_of_lt hlt)
    refine mem_map.mpr ⟨(s + (t.length - hash k % t.length)) % t.length,
      mem_range.mpr (Nat.mod_lt _ (Nat.zero_lt_of_lt hlt)), ?_⟩
    rw [Nat.add_mod_mod, ← Nat.mod_add_mod, Nat.add_left_comm,
      Nat.add_sub_cancel' (Nat.le_of_lt hmod),
      Nat.add_mod_right, Nat.mod_eq_of_lt hlt]
  exact Option.isSome_iff_exists.mp (find?_isSome.mpr ⟨s, hmem, by simp [stopsAt, hs]⟩)

namespace Represents

theorem replicate (n : Nat) : Represents hash (replicate n (none : Option (κ × V))) fun _ => none :=
  ⟨by simp [entryAt, getElem?_replicate]; grind, by simp⟩

section

variable (h : Represents hash t m) (hs : slotOf hash t k = some s)

include h hs

theorem find : (entryAt t s).map Prod.snd = m k := by
  have hstop := (slotOf_eq_some.mp hs).1
  cases he : entryAt t s with
  | none =>
    cases hm : m k with
    | none => rfl
    | some v =>
      obtain ⟨s', hs'⟩ := h.stored hm
      cases hs.symm.trans (h.placed hs').1
      cases he.symm.trans hs'
  | some e =>
    obtain rfl : e.1 = k := by simpa [stopsAt, he] using hstop
    exact (h.placed he).2.symm

/-- Setting the slot of a key changes the value of this key. -/
theorem set (v : V) : Represents hash (t.set s (some (k, v))) (Function.update m k (some v)) := by
  have hset := entryAt_set (lt_of_slotOf hs) (some (k, v))
  obtain ⟨hstop, as, bs, hprobes, hpassed⟩ := slotOf_eq_some.mp hs
  refine ⟨fun {s' k' v'} he => ?_, fun {k' v'} hm => ?_⟩
  · rw [hset] at he
    split at he
    next heq =>
      subst heq
      cases he
      refine ⟨slotOf_eq_some.mpr ⟨by simp [stopsAt, hset], as, bs, by rw [length_set, hprobes],
        fun a ha => ?_⟩, by simp⟩
      rw [stopsAt, hset, if_neg]
      · exact hpassed a ha
      · rintro rfl
        simp [hpassed a ha] at hstop
    next hne =>
      obtain ⟨hslot, hm⟩ := h.placed he
      have hk : k' ≠ k := by
        rintro rfl
        cases hs.symm.trans hslot
        exact hne rfl
      obtain ⟨-, as', bs', hprobes', hpassed'⟩ := slotOf_eq_some.mp hslot
      refine ⟨slotOf_eq_some.mpr ⟨by simp [stopsAt, hset, hne, he], as', bs',
        by rw [length_set, hprobes'], fun a ha => ?_⟩, by simp [hk, hm]⟩
      rw [stopsAt, hset]
      split
      · simp [hk.symm]
      · exact hpassed' a ha
  · by_cases hk : k' = k
    · subst hk
      rw [Function.update_self] at hm
      cases hm
      exact ⟨s, by simp [hset]⟩
    · rw [Function.update_of_ne hk] at hm
      obtain ⟨s', hs'⟩ := h.stored hm
      refine ⟨s', ?_⟩
      rw [hset, if_neg, hs']
      rintro rfl
      simp [stopsAt, hs', hk] at hstop

end

end Represents

end

end Zepto.Lib
