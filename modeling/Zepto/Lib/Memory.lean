import Mathlib.Algebra.Order.Ring.Nat
import Mathlib.Tactic.Ring

/-!
# Byte memory

A memory gives every address its byte. `load m a n` is the little-endian number in the `n`
bytes from `a`, `store m a n v` writes the low `n` bytes of `v` there. A load sees a store
through the bytes they share (`load_store_within`), and none of it when they share none
(`load_store_disjoint`); storing what was loaded moves the bytes (`store_load_apply`).
-/

namespace Zepto.Lib

section

variable {m m' : Mem} {a n b k v : Nat}

abbrev Mem := Nat → BitVec 8

/-- The little-endian number in `n` bytes from `a`. -/
def load (m : Mem) : Nat → Nat → Nat
  | _, 0 => 0
  | a, n + 1 => (m a).toNat + 256 * load m (a + 1) n

/-- The memory with the low `n` bytes of `v` written from `a`. -/
def store (m : Mem) (a n v : Nat) : Mem :=
  fun x => if a ≤ x ∧ x < a + n then .ofNat 8 (v / 256 ^ (x - a)) else m x

theorem load_lt (m : Mem) (a n : Nat) : load m a n < 256 ^ n := by
  induction n generalizing a with
  | zero => simp [load]
  | succ n ih =>
    have := ih (a + 1)
    rw [load]
    omega

theorem load_congr (h : ∀ x, a ≤ x → x < a + n → m x = m' x) : load m a n = load m' a n := by
  induction n generalizing a with
  | zero => rfl
  | succ n ih =>
    rw [load, load, h a (by omega) (by omega), ih fun x h1 h2 => h x (by omega) (by omega)]

theorem load_shift (h : ∀ k < n, m (a + k) = m' (b + k)) : load m a n = load m' b n := by
  induction n generalizing a b with
  | zero => rfl
  | succ n ih =>
    have h0 := h 0 (by omega)
    simp only [add_zero] at h0
    have ht : load m (a + 1) n = load m' (b + 1) n := ih fun k hk => by
      have := h (k + 1) (by omega)
      simpa [add_assoc, add_comm 1 k] using this
    rw [load, load, h0, ht]

theorem load_byte (m : Mem) (hk : k < n) : .ofNat 8 (load m a n / 256 ^ k) = m (a + k) := by
  induction n generalizing a k with
  | zero => omega
  | succ n ih =>
    cases k with
    | zero =>
      apply BitVec.eq_of_toNat_eq
      simp only [load, BitVec.toNat_ofNat, add_zero]
      omega
    | succ k =>
      have hdiv : load m a (n + 1) / 256 ^ (k + 1) = load m (a + 1) n / 256 ^ k := by
        rw [load, pow_succ', ← Nat.div_div_eq_div_mul]
        congr 1
        omega
      rw [hdiv, ih (by omega), add_assoc, add_comm 1 k]

theorem store_apply_of_outside {x : Nat} (h : x < a ∨ a + n ≤ x) : store m a n v x = m x := by
  unfold store
  rw [if_neg (by omega)]

theorem load_store_disjoint (h : b + k ≤ a ∨ a + n ≤ b) : load (store m a n v) b k = load m b k :=
  load_congr fun _ _ _ => store_apply_of_outside (by omega)

theorem load_store_within {e : Nat} (h : k + e ≤ n) :
    load (store m a n v) (a + k) e = v / 256 ^ k % 256 ^ e := by
  induction e generalizing k with
  | zero => simp [load, Nat.mod_one]
  | succ e ih =>
    have hb : store m a n v (a + k) = .ofNat 8 (v / 256 ^ k) := by
      unfold store
      rw [if_pos (by omega), Nat.add_sub_cancel_left]
    rw [load, hb, add_assoc, ih (by omega), BitVec.toNat_ofNat, pow_succ' 256 e,
      Nat.mod_mul, pow_succ 256 k, Nat.div_div_eq_div_mul]

theorem store_load_apply (m : Mem) (a b n x : Nat) :
    store m a n (load m b n) x = if a ≤ x ∧ x < a + n then m (b + (x - a)) else m x := by
  unfold store
  split
  · rw [load_byte m (by omega)]
  · rfl

end

end Zepto.Lib
