import Zepto.Lib.Bytes

/-!
# Base64url

`base64url_decode` reads the parts of a token. `base64url` is the encoding without padding;
`base64url_canonical` says that the decoder inverts it and accepts nothing else, so no two texts
stand for the same bytes.
-/

namespace Zepto.Auth

open Zepto.Lib

/-- The value of a character; `none` is the `-1` of the code. -/
def sextet (value : Byte) : Option Nat :=
  let v := value.toNat
  if 65 ≤ v ∧ v ≤ 90 then some (v - 65)
  else if 97 ≤ v ∧ v ≤ 122 then some (v - 97 + 26)
  else if 48 ≤ v ∧ v ≤ 57 then some (v - 48 + 52)
  else if v = 45 then some 62
  else if v = 95 then some 63
  else none

/-! The bytes of a group of four values. -/

def firstByte (a b : Nat) : Byte := .ofNat 8 (a <<< 2 ||| b >>> 4)

def secondByte (b c : Nat) : Byte := .ofNat 8 (b <<< 4 ||| c >>> 2)

def thirdByte (c d : Nat) : Byte := .ofNat 8 (c <<< 6 ||| d)

/-- The loop over the groups, and the group that remains. -/
def decodeGroups : List Byte → Option (List Byte)
  | w :: x :: y :: z :: rest => do
    let a ← sextet w
    let b ← sextet x
    let c ← sextet y
    let d ← sextet z
    let result ← decodeGroups rest
    some (firstByte a b :: secondByte b c :: thirdByte c d :: result)
  | [w, x, y] => do
    let a ← sextet w
    let b ← sextet x
    let c ← sextet y
    if c &&& 3 ≠ 0 then none else some [firstByte a b, secondByte b c]
  | [w, x] => do
    let a ← sextet w
    let b ← sextet x
    if b &&& 15 ≠ 0 then none else some [firstByte a b]
  | _ => some []

/-- No bytes are the answer to a text that is refused. -/
def base64urlDecode (input : List Byte) : List Byte :=
  if input = [] ∨ input.length % 4 = 1 then [] else (decodeGroups input).getD []

/-! ## The encoding -/

def digit (v : Nat) : Byte :=
  let alphabet := "ABCDEFGHIJKLMNOPQRSTUVWXYZabcdefghijklmnopqrstuvwxyz0123456789-_"
  .ofNat 8 (alphabet.toList.getD v 'A').toNat

def base64url : List Byte → List Byte
  | x :: y :: z :: rest =>
    digit (x.toNat / 4) :: digit (x.toNat % 4 * 16 + y.toNat / 16) ::
      digit (y.toNat % 16 * 4 + z.toNat / 64) :: digit (z.toNat % 64) :: base64url rest
  | [x, y] =>
    [digit (x.toNat / 4), digit (x.toNat % 4 * 16 + y.toNat / 16), digit (y.toNat % 16 * 4)]
  | [x] => [digit (x.toNat / 4), digit (x.toNat % 4 * 16)]
  | [] => []

section

variable {a b c d m n : Nat}

theorem sextet_digit : ∀ v < 64, sextet (digit v) = some v := by decide +kernel

theorem digit_of_sextet : ∀ w, ∀ v ∈ sextet w, v < 64 ∧ w = digit v := by decide +kernel

theorem sextet_eq_some_iff {w : Byte} : sextet w = some a ↔ a < 64 ∧ w = digit a :=
  ⟨digit_of_sextet w a, fun ⟨ha, hw⟩ => hw ▸ sextet_digit a ha⟩

theorem shiftLeft_or (h : b < 2 ^ n) : a <<< n ||| b = a * 2 ^ n + b := by
  rw [← Nat.shiftLeft_add_eq_or_of_lt h, Nat.shiftLeft_eq]

theorem toNat_firstByte (ha : a < 64) (hb : b < 64) : (firstByte a b).toNat = a * 4 + b / 16 := by
  rw [firstByte, Nat.shiftRight_eq_div_pow, shiftLeft_or (by omega), BitVec.toNat_ofNat]
  omega

theorem toNat_secondByte (hc : c < 64) : (secondByte b c).toNat = b % 16 * 16 + c / 4 := by
  rw [secondByte, Nat.shiftRight_eq_div_pow, shiftLeft_or (by omega), BitVec.toNat_ofNat]
  omega

theorem toNat_thirdByte (hd : d < 64) : (thirdByte c d).toNat = c % 4 * 64 + d := by
  rw [thirdByte, shiftLeft_or (by omega), BitVec.toNat_ofNat]
  omega

theorem firstByte_digits (x : Byte) (hb : b / 16 = x.toNat % 4) :
    firstByte (x.toNat / 4) b = x := by
  apply BitVec.eq_of_toNat_eq
  rw [toNat_firstByte] <;> omega

theorem secondByte_digits (y : Byte) (hb : b % 16 = y.toNat / 16) (hc : c / 4 = y.toNat % 16) :
    secondByte b c = y := by
  apply BitVec.eq_of_toNat_eq
  rw [toNat_secondByte] <;> omega

theorem thirdByte_digits (z : Byte) (hc : c % 4 = z.toNat / 64) :
    thirdByte c (z.toNat % 64) = z := by
  apply BitVec.eq_of_toNat_eq
  rw [toNat_thirdByte] <;> omega

end

theorem and_three (c : Nat) : c &&& 3 = c % 4 := Nat.and_two_pow_sub_one_eq_mod c 2

theorem and_fifteen (b : Nat) : b &&& 15 = b % 16 := Nat.and_two_pow_sub_one_eq_mod b 4

theorem decodeGroups_base64url (bytes : List Byte) :
    decodeGroups (base64url bytes) = some bytes ∧ (base64url bytes).length % 4 ≠ 1 := by
  fun_induction base64url bytes with
  | case1 x y z rest ih =>
    refine ⟨?_, by simp only [List.length_cons]; omega⟩
    simp (disch := omega) only [decodeGroups, sextet_digit, ih.1, Option.bind_eq_bind,
      Option.bind_some]
    rw [firstByte_digits x, secondByte_digits y, thirdByte_digits z] <;> omega
  | case2 x y =>
    refine ⟨?_, by simp⟩
    simp (disch := omega) only [decodeGroups, sextet_digit, Option.bind_eq_bind, Option.bind_some]
    rw [and_three, if_neg (by omega), firstByte_digits x, secondByte_digits y] <;> omega
  | case3 x =>
    refine ⟨?_, by simp⟩
    simp (disch := omega) only [decodeGroups, sextet_digit, Option.bind_eq_bind, Option.bind_some]
    rw [and_fifteen, if_neg (by omega), firstByte_digits x]
    omega
  | case4 => exact ⟨rfl, by decide⟩

theorem base64url_of_decodeGroups {t bytes : List Byte} (h : decodeGroups t = some bytes)
    (hlen : t.length % 4 ≠ 1) : t = base64url bytes := by
  fun_induction decodeGroups t generalizing bytes with
  | case1 w x y z rest ih =>
    simp only [Option.bind_eq_bind, Option.bind_eq_some_iff, sextet_eq_some_iff] at h
    obtain ⟨a, ⟨ha, rfl⟩, b, ⟨hb, rfl⟩, c, ⟨hc, rfl⟩, d, ⟨hd, rfl⟩, result, hr, ⟨⟩⟩ := h
    rw [ih hr (by simpa [add_assoc] using hlen), base64url, toNat_firstByte ha hb,
      toNat_secondByte hc, toNat_thirdByte hd]
    congr <;> omega
  | case2 w x y =>
    simp only [Option.bind_eq_bind, Option.bind_eq_some_iff, sextet_eq_some_iff, and_three] at h
    obtain ⟨a, ⟨ha, rfl⟩, b, ⟨hb, rfl⟩, c, ⟨hc, rfl⟩, h⟩ := h
    split at h <;> cases h
    rw [base64url, toNat_firstByte ha hb, toNat_secondByte hc]
    congr <;> omega
  | case3 w x =>
    simp only [Option.bind_eq_bind, Option.bind_eq_some_iff, sextet_eq_some_iff, and_fifteen] at h
    obtain ⟨a, ⟨ha, rfl⟩, b, ⟨hb, rfl⟩, h⟩ := h
    split at h <;> cases h
    rw [base64url, toNat_firstByte ha hb]
    congr <;> omega
  | case4 t hgroup hthree htwo =>
    match t with
    | [] =>
      cases h
      rfl
    | [_] => exact absurd rfl hlen
    | [_, _] => exact absurd rfl (htwo _ _)
    | [_, _, _] => exact absurd rfl (hthree _ _ _)
    | _ :: _ :: _ :: _ :: _ => exact absurd rfl (hgroup _ _ _ _ _)

theorem base64urlDecode_base64url (bytes : List Byte) :
    base64urlDecode (base64url bytes) = bytes := by
  obtain ⟨h, hlen⟩ := decodeGroups_base64url bytes
  rw [base64urlDecode, h]
  split
  next hc =>
    rw [hc.resolve_right hlen] at h
    exact Option.some.inj h
  · rfl

theorem base64url_base64urlDecode {t : List Byte} (h : base64urlDecode t ≠ []) :
    base64url (base64urlDecode t) = t := by
  rw [base64urlDecode] at h ⊢
  split at h
  · exact absurd rfl h
  next hc =>
    cases hd : decodeGroups t with
    | none => exact absurd (by rw [hd]; rfl) h
    | some bytes =>
      rw [if_neg hc]
      exact (base64url_of_decodeGroups hd fun hl => hc (.inr hl)).symm

/-- The decoder inverts the encoding, accepts nothing else, and so decodes no two texts alike. -/
theorem base64url_canonical : (∀ bytes, base64urlDecode (base64url bytes) = bytes) ∧
      (∀ t, base64urlDecode t ≠ [] → t = base64url (base64urlDecode t)) ∧
      ∀ t u, base64urlDecode t ≠ [] → base64urlDecode t = base64urlDecode u → t = u := by
  refine ⟨base64urlDecode_base64url, fun t h => (base64url_base64urlDecode h).symm, ?_⟩
  intro t u ht h
  rw [← base64url_base64urlDecode ht, h, base64url_base64urlDecode (h ▸ ht)]

end Zepto.Auth
