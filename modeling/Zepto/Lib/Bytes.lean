import Mathlib.Data.List.Basic
import Mathlib.Tactic.Ring

/-!
# Numbers as bytes

`toBytes n v` lists the low `n` bytes of `v`, lowest first, as a loop that pushes `v & 0xFF` and
shifts writes them; `ofBytes` reads them back with the highest first. `readAt` reads a number at an
offset and knows when it would read past the end; `readAt_block` finds the fields of records that
have one length.
-/

namespace Zepto.Lib

section

variable {n v : Nat} {α : Type*} {f : α → List Byte} {k : Nat} {l : List α} {i : Nat} {a : α}

abbrev Byte := BitVec 8

/-- The low `n` bytes of `v`, lowest first. -/
def toBytes : Nat → Nat → List Byte
  | 0, _ => []
  | n + 1, v => .ofNat 8 v :: toBytes n (v >>> 8)

def ofBytes (l : List Byte) : Nat := l.foldr (fun b v => v <<< 8 ||| b.toNat) 0

/-- The `n`-byte number at an offset, if the data reach that far. -/
def readAt (data : List Byte) (off n : Nat) : Option Nat :=
  if off + n ≤ data.length then some (ofBytes ((data.drop off).take n)) else none

@[simp]
theorem length_toBytes (n v : Nat) : (toBytes n v).length = n := by
  induction n generalizing v with
  | zero => rfl
  | succ n ih => simp [toBytes, ih]

theorem ofBytes_cons (b : Byte) (l : List Byte) : ofBytes (b :: l) = ofBytes l * 256 + b.toNat := by
  have hb : b.toNat < 2 ^ 8 := b.isLt
  show ofBytes l <<< 8 ||| b.toNat = _
  rw [← Nat.shiftLeft_add_eq_or_of_lt hb, Nat.shiftLeft_eq]

theorem ofBytes_toBytes (h : v < 256 ^ n) : ofBytes (toBytes n v) = v := by
  induction n generalizing v with
  | zero =>
    have hv : v = 0 := by simpa using h
    simp [toBytes, ofBytes, hv]
  | succ n ih =>
    have hshift : v >>> 8 = v / 256 := Nat.shiftRight_eq_div_pow v 8
    have hlt : v / 256 < 256 ^ n := Nat.div_lt_of_lt_mul (by rw [pow_succ] at h; omega)
    rw [toBytes, ofBytes_cons, hshift, ih hlt, BitVec.toNat_ofNat]
    omega

/-- A number that stands at the offset is read. -/
theorem readAt_append (before after : List Byte) (h : v < 256 ^ n) :
    readAt (before ++ (toBytes n v ++ after)) before.length n = some v := by
  rw [readAt, if_pos (by simp), List.drop_left, List.take_left' (length_toBytes n v),
    ofBytes_toBytes h]

section

variable (hf : ∀ a, (f a).length = k) (hi : l[i]? = some a)

include hf hi

theorem flatMap_block :
    ∃ before after, l.flatMap f = before ++ (f a ++ after) ∧ before.length = i * k := by
  induction l generalizing i with
  | nil => simp at hi
  | cons b l ih =>
    cases i with
    | zero =>
      simp only [List.getElem?_cons_zero, Option.some.injEq] at hi
      subst hi
      exact ⟨[], l.flatMap f, by simp, by simp⟩
    | succ i =>
      obtain ⟨before, after, heq, hlen⟩ := ih (by simpa using hi)
      refine ⟨f b ++ before, after, by simp [heq], ?_⟩
      rw [List.length_append, hf, hlen]
      ring

theorem readAt_block
    (head rest pre post : List Byte) {off : Nat} (hfield : f a = pre ++ (toBytes n v ++ post))
    (hv : v < 256 ^ n) (hoff : off = head.length + i * k + pre.length) :
    readAt (head ++ (l.flatMap f ++ rest)) off n = some v := by
  obtain ⟨before, after, heq, hlen⟩ := flatMap_block hf hi
  have hdata : head ++ (l.flatMap f ++ rest) =
      (head ++ before ++ pre) ++ (toBytes n v ++ (post ++ (after ++ rest))) := by
    simp [heq, hfield]
  have hpos : off = (head ++ before ++ pre).length := by
    simp only [List.length_append]
    omega
  rw [hdata, hpos, readAt_append _ _ hv]

end

end

end Zepto.Lib
