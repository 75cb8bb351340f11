import Mathlib.Data.Int.Basic
import Mathlib.Tactic.Positivity
import Mathlib.Tactic.Zify

/-!
# Machine words and doubles

Signed 64-bit values are integers; `wrap64` brings the result of an overflowing operation back into
the range, `signed` and `unsigned` convert to and from the bit pattern. Doubles and floats are
Lean's own, through their logical model: `doubleOfInt` is the rounding conversion and `intOfDouble`
truncates, giving the smallest `int64` for what does not fit.
-/

namespace Zepto.Lib

/-- `INT64_MIN`. -/
def int64Min : Int := -9223372036854775808

/-- `INT64_MAX`. -/
def int64Max : Int := 9223372036854775807

/-- The signed value of a `w`-bit pattern. -/
def signed (w x : Nat) : Int := if x < 2 ^ (w - 1) then x else (x : Int) - 2 ^ w

/-- The `w`-bit pattern of a value. -/
def unsigned (w : Nat) (z : Int) : Nat := (z % 2 ^ w).toNat

/-- Two's complement wrap-around of 64 bits. -/
def wrap64 (z : Int) : Int := signed 64 (unsigned 64 z)

theorem unsigned_lt (w : Nat) (z : Int) : unsigned w z < 2 ^ w := by
  have hpos : (0 : Int) < 2 ^ w := by positivity
  have h0 := Int.emod_nonneg z (ne_of_gt hpos)
  have h1 := Int.emod_lt_of_pos z hpos
  unfold unsigned
  zify
  rwa [Int.toNat_of_nonneg h0]

theorem signed_unsigned64 {z : Int} (hlo : int64Min ≤ z) (hhi : z ≤ int64Max) :
    signed 64 (unsigned 64 z) = z := by
  unfold signed unsigned
  simp only [int64Min, int64Max] at hlo hhi
  split <;> omega

theorem signed64_range {x : Nat} (hx : x < 2 ^ 64) :
    int64Min ≤ signed 64 x ∧ signed 64 x ≤ int64Max := by
  unfold signed int64Min int64Max
  split <;> omega

theorem wrap64_eq_bmod (z : Int) : wrap64 z = z.bmod (2 ^ 64) := by
  unfold wrap64 signed unsigned
  rw [Int.bmod_def]
  split <;> split <;> omega

theorem wrap64_add_left (a b : Int) : wrap64 (wrap64 a + b) = wrap64 (a + b) := by
  simp [wrap64_eq_bmod]

theorem wrap64_wrap64 (a : Int) : wrap64 (wrap64 a) = wrap64 a := by
  simp [wrap64_eq_bmod]

def doubleOfInt (n : Int) : Float := .ofModel (.ofInt n)

/-- Truncation to `int64`; anything out of range gives `INT64_MIN`. -/
def intOfDouble (x : Float) : Int :=
  match x.toModel.unpack with
  | .notANumber | .infinity _ => int64Min
  | .zero _ => 0
  | .finite s m e _ =>
    let z := Float.Model.UnpackedFloat.roundToInt s m e
    if int64Min ≤ z ∧ z ≤ int64Max then z else int64Min

/-- The double of a float, which is exact. -/
def doubleOfFloat (x : Float32) : Float :=
  .ofModel (.pack (match x.toModel.unpack with
    | .finite s m e _ => .round .binary64 s m e
    | other => other))

def doubleOfBits (x : Nat) : Float := .ofBits (.ofNat x)

/-- The bit pattern of a double as an `int64`. -/
def bitsOfDouble (x : Float) : Int := signed 64 x.toBits.toNat

end Zepto.Lib
