import Mathlib.Data.BitVec
import Mathlib.Logic.Function.Basic

/-!
# Steps of a bit mixer

Adding a constant, multiplying by a constant that has an inverse, and combining a word with its
own right shift lose nothing.
-/

namespace Zepto.Lib

open BitVec

variable {w : Nat}

theorem xor_shift_injective {k : Nat} (hk : 0 < k) :
    Function.Injective fun x : BitVec w => x ^^^ (x >>> k) := by
  intro x y h
  have hz : x ^^^ y = (x ^^^ y) >>> k := by
    rw [ushiftRight_xor_distrib, ← BitVec.xor_eq_zero_iff]
    have hxy : (x ^^^ x >>> k) ^^^ (y ^^^ y >>> k) = 0#w := BitVec.xor_eq_zero_iff.mpr h
    rw [← hxy]
    ac_rfl
  have hnat := congrArg BitVec.toNat hz
  rw [toNat_ushiftRight] at hnat
  have hzero : (x ^^^ y).toNat = 0 := by
    by_contra hne
    have hpow : 1 < 2 ^ k := Nat.one_lt_two_pow (by omega)
    have := Nat.div_lt_self (Nat.pos_of_ne_zero hne) hpow
    omega
  exact BitVec.xor_eq_zero_iff.mp (eq_of_toNat_eq hzero)

theorem mul_injective_of_inverse {c d : BitVec w} (h : c * d = 1#w) :
    Function.Injective fun x : BitVec w => x * c := by
  intro x y hxy
  have := congrArg (· * d) hxy
  simpa [mul_assoc, h] using this

theorem halves_injective {a b : BitVec 32} {i j : Nat} (hi : i < 2 ^ 32) (hj : j < 2 ^ 32)
    (h : (a.setWidth 64 <<< 32) ||| (.ofNat 64 i &&& 0xFFFFFFFF#64) =
      (b.setWidth 64 <<< 32) ||| (.ofNat 64 j &&& 0xFFFFFFFF#64)) : a = b ∧ i = j := by
  have htoNat (c : BitVec 32) (k : Nat) (hk : k < 2 ^ 32) :
      ((c.setWidth 64 <<< 32) ||| (.ofNat 64 k &&& 0xFFFFFFFF#64)).toNat =
        c.toNat * 2 ^ 32 + k := by
    have hmask : k % 2 ^ 64 &&& 4294967295 = k := by
      rw [show 4294967295 = 2 ^ 32 - 1 from rfl, Nat.and_two_pow_sub_one_eq_mod]
      omega
    simp only [toNat_or, toNat_shiftLeft, toNat_setWidth, toNat_and, toNat_ofNat]
    rw [hmask, Nat.mod_eq_of_lt (show c.toNat < 2 ^ 64 by omega), Nat.mod_eq_of_lt (by omega),
      ← Nat.shiftLeft_eq, ← Nat.shiftLeft_add_eq_or_of_lt hk]
  have hnat := congrArg BitVec.toNat h
  rw [htoNat a i hi, htoNat b j hj] at hnat
  exact ⟨eq_of_toNat_eq (by omega), by omega⟩

end Zepto.Lib
