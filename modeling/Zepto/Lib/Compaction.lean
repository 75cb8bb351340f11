import Zepto.Lib.Memory
import Mathlib.Data.List.GetD

/-!
# Compaction in place

`compact` copies chosen slots of a table of equal slots down to its beginning, front to back in
the same memory. As the chosen slots are increasing, a slot is read before it is overwritten; so
every byte of the result is the old byte at its `compactSource`.
-/

namespace Zepto.Lib

open List

/-- Copy the slots `is` of width `s` from `base` to the slots from `w` on. -/
def compact (base s : Nat) : List Nat → Nat → Mem → Mem
  | [], _, m => m
  | i :: is, w, m => compact base s is (w + 1) (store m (base + s * w) s (load m (base + s * i) s))

/-- Where the byte at `x` comes from when the slots `is` went to those from `w` on. -/
def slotSource (base s : Nat) (is : List Nat) (w x : Nat) : Nat :=
  if base ≤ x ∧ w ≤ (x - base) / s ∧ (x - base) / s < w + is.length then
    base + s * is.getD ((x - base) / s - w) 0 + (x - base) % s
  else x

/-- Where the byte at `x` comes from when the slots `is` went to the beginning. -/
def compactSource (base s : Nat) (is : List Nat) (x : Nat) : Nat := slotSource base s is 0 x

variable {base s : Nat}

section

variable {w x : Nat} {is : List Nat}

theorem mem_slot_iff (hs : 0 < s) (hx : base ≤ x) :
    base + s * w ≤ x ∧ x < base + s * w + s ↔ (x - base) / s = w := by
  rw [Nat.div_eq_iff hs]
  rw [mul_comm s w]
  omega

theorem slotSource_outside (h : ¬(base ≤ x ∧ w ≤ (x - base) / s ∧ (x - base) / s < w + is.length)) :
    slotSource base s is w x = x :=
  if_neg h

theorem store_slot_apply (m : Mem) {i k v : Nat} (hi : w < i) :
    store m (base + s * w) s v (base + s * i + k) = m (base + s * i + k) := by
  have hle : s * (w + 1) ≤ s * i := Nat.mul_le_mul_left s hi
  rw [Nat.mul_succ] at hle
  exact store_apply_of_outside (by omega)

theorem compact_eq (hs : 0 < s) (m : Mem) (hsorted : is.Pairwise (· < ·)) (hle : ∀ i ∈ is, w ≤ i) :
    compact base s is w m = fun x => m (slotSource base s is w x) := by
  induction is generalizing w m with
  | nil =>
    funext x
    rw [slotSource_outside (by simp only [length_nil]; omega)]
    rfl
  | cons i is ih =>
    obtain ⟨hlt, hsorted'⟩ := pairwise_cons.mp hsorted
    have hwi : w ≤ i := hle i mem_cons_self
    have hle' : ∀ j ∈ is, w + 1 ≤ j := fun j hj => by
      have := hlt j hj
      omega
    rw [compact, ih _ hsorted' hle']
    funext x
    -- Three kinds of bytes: in a slot of the rest, in slot `w`, or in none of them.
    by_cases hrest : base ≤ x ∧ w + 1 ≤ (x - base) / s ∧ (x - base) / s < w + 1 + is.length
    · obtain ⟨hx, hlo, hhi⟩ := hrest
      have hidx : (x - base) / s - w = (x - base) / s - (w + 1) + 1 := by omega
      have hmem : is.getD ((x - base) / s - (w + 1)) 0 ∈ is := by
        rw [getD_eq_getElem _ _ (by omega)]
        exact getElem_mem _
      rw [slotSource, if_pos ⟨hx, hlo, hhi⟩, slotSource,
        if_pos ⟨hx, by omega, by rw [length_cons]; omega⟩, hidx]
      exact store_slot_apply m (hle' _ hmem)
    · rw [slotSource_outside hrest, store_load_apply]
      by_cases hw : base ≤ x ∧ (x - base) / s = w
      · obtain ⟨hx, hw⟩ := hw
        have hsub : x - (base + s * w) = (x - base) % s := by
          have := Nat.div_add_mod (x - base) s
          rw [hw] at this
          omega
        rw [if_pos ((mem_slot_iff hs hx).mpr hw), slotSource,
          if_pos ⟨hx, by omega, by rw [length_cons]; omega⟩, hw, Nat.sub_self,
          getD_cons_zero, hsub]
      · have hout : ¬(base + s * w ≤ x ∧ x < base + s * w + s) := fun h =>
          hw ⟨by omega, (mem_slot_iff hs (by omega)).mp h⟩
        rw [if_neg hout, slotSource_outside (by rw [length_cons]; omega)]

end

end Zepto.Lib
