import Zepto.Lib.Word

/-!
# Single-precision numbers

A `float` that is stored is its bit pattern, so that copies keep the payload of a not-a-number. Its
value is a double, which holds every `float` exactly; `ofDouble` rounds back. Numbers that compare
equal have equal squares (`square_eq_of_same`): they differ at most in the sign of zero.
-/

namespace Zepto.Lib

open Float.Model Float.Model.UnpackedFloat

/-- The bits of a `float`. -/
abbrev Single := BitVec 32

namespace Single

def number (x : Single) : Float32 := .ofBits (.ofBitVec x)

/-- `static_cast<double>(x)`. -/
def value (x : Single) : Float := doubleOfFloat x.number

def isFinite (x : Single) : Bool := x.number.isFinite

/-- `x == y` as numbers. -/
def same (x y : Single) : Bool := x.number == y.number

/-- `static_cast<float>(x)`. -/
def ofDouble (x : Float) : Single :=
  (Float32.Model.pack (match x.toModel.unpack with
    | .finite s m e _ => round .binary32 s m e
    | other => other)).toBits.toBitVec

theorem eq_or_zero_of_compare {a b : UnpackedFloat} (h : a.compare b = some .eq) :
    a = b ∨ (∃ s, a = .zero s) ∧ ∃ s, b = .zero s := by
  cases a with
  | notANumber => cases h
  | zero s => cases b with
    | zero s' => exact .inr ⟨⟨s, rfl⟩, ⟨s', rfl⟩⟩
    | notANumber => cases h
    | infinity s' | finite s' => cases s' <;> cases h
  | infinity s => cases b with
    | infinity s' => cases s <;> cases s' <;> first | exact .inl rfl | cases h
    | notANumber | zero s' | finite s' => cases s <;> cases h
  | finite s m e hm => cases b with
    | finite s' m' e' hm' =>
      have hcmp : ((compare e e').then (compare m m')) = .eq → e = e' ∧ m = m' := fun h => by
        rw [Ordering.then_eq_eq, Int.compare_eq_eq, Nat.compare_eq_eq] at h
        exact h
      cases s <;> cases s'
      · have h : some ((compare e e').then (compare m m')).swap = some .eq := h
        rw [Option.some.injEq, Ordering.swap_eq_eq] at h
        obtain ⟨rfl, rfl⟩ := hcmp h
        exact .inl rfl
      · cases h
      · cases h
      · obtain ⟨rfl, rfl⟩ := hcmp (Option.some.inj h)
        exact .inl rfl
    | notANumber | zero s' => cases s <;> cases h
    | infinity s' => cases s <;> cases s' <;> cases h

theorem square_zero (s : Sign) : (.ofModel (.pack (.zero s))) * (.ofModel (.pack (.zero s))) =
      Float.ofModel (.pack (.zero .positive)) := by
  cases s <;> decide +kernel

theorem square_eq_of_same {x y : Single} (h : x.same y) :
    x.value * x.value = y.value * y.value := by
  have hcmp : x.number.toModel.unpack.compare y.number.toModel.unpack = some .eq := beq_iff_eq.mp h
  rcases eq_or_zero_of_compare hcmp with heq | ⟨⟨s, hx⟩, ⟨s', hy⟩⟩
  · rw [value, value, doubleOfFloat, doubleOfFloat, heq]
  · rw [value, value, doubleOfFloat, doubleOfFloat, hx, hy]
    exact (square_zero s).trans (square_zero s').symm

end Single

end Zepto.Lib
