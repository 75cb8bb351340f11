import Mathlib.Data.Nat.Digits.Lemmas

/-!
# Words and numbers in a text

Decimal numbers as they are printed, and the `>>` of a text stream that reads words and unsigned
64-bit numbers back. A number that is printed is read back (`readNumber_decimal`), and so is a word
(`readWord_append`).
-/

namespace Zepto.Lib

open List

section

variable {n : Nat} {c : Char} {p : Char → Bool} {t : List Char} {b : Char}

/-- Decided along the text, not over all characters. -/
instance (priority := 2000) decidableForallMem_text {p : Char → Prop} [DecidablePred p]
    (t : List Char) : Decidable (∀ c, c ∈ t → p c) := decidableBAll p t

instance lawfulBEq_text : LawfulBEq (List Char) := inferInstance

def decimal (n : Nat) : List Char :=
  if n = 0 then ['0'] else (Nat.digits 10 n).reverse.map fun d => .ofNat (48 + d)

def decimalInt (z : Int) : List Char :=
  if z < 0 then '-' :: decimal z.natAbs else decimal z.natAbs

/-- `std::isspace`. -/
def isBlank (c : Char) : Bool := c = ' ' || 9 ≤ c.toNat && c.toNat ≤ 13

/-- `stream >> word`: the word and what is left. -/
def readWord (t : List Char) : Option (List Char × List Char) :=
  let t := t.dropWhile isBlank
  if t.isEmpty then none else some (t.span fun c => !isBlank c)

def numberOf (digits : List Char) : Nat := digits.foldl (fun n c => n * 10 + (c.toNat - 48)) 0

/-- `stream >> number` for a `uint64_t`; a minus sign negates modulo `2^64`. -/
def readNumber (t : List Char) : Option (Nat × List Char) :=
  let t := t.dropWhile isBlank
  let (minus, t) := match t with
    | '-' :: t => (true, t)
    | '+' :: t | t => (false, t)
  let digits := t.takeWhile Char.isDigit
  let n := numberOf digits
  if digits.isEmpty || 2 ^ 64 ≤ n then none
  else some (if minus then (2 ^ 64 - n) % 2 ^ 64 else n, t.dropWhile Char.isDigit)

/-! ## Numbers -/

theorem isDigit_ofNat : ∀ d < 10, (Char.ofNat (48 + d)).isDigit := by decide

theorem toNat_ofNat_digit : ∀ d < 10, (Char.ofNat (48 + d)).toNat - 48 = d := by decide

theorem isDigit_decimal (hc : c ∈ decimal n) : c.isDigit := by
  unfold decimal at hc
  split at hc
  · rw [mem_singleton] at hc
    subst hc
    decide
  · simp only [mem_map, mem_reverse] at hc
    obtain ⟨d, hd, rfl⟩ := hc
    exact isDigit_ofNat d (Nat.digits_lt_base (by omega) hd)

theorem decimal_ne_nil (n : Nat) : decimal n ≠ [] := by
  unfold decimal
  split
  · exact nofun
  next h =>
    rw [Ne, map_eq_nil_iff, reverse_eq_nil_iff, Nat.digits_eq_nil_iff_eq_zero]
    exact h

theorem length_decimal {k : Nat} (hk : 0 < k) (h : n < 10 ^ k) : (decimal n).length ≤ k := by
  unfold decimal
  split
  · exact hk
  · rw [length_map, length_reverse]
    exact (Nat.digits_length_le_iff (by omega) n).mpr h

theorem foldl_digits {l : List Nat} (h : ∀ d ∈ l, d < 10) :
    numberOf (l.reverse.map fun d => .ofNat (48 + d)) = .ofDigits 10 l := by
  induction l with
  | nil => rfl
  | cons d l ih =>
    rw [forall_mem_cons] at h
    rw [reverse_cons, map_append, numberOf, foldl_append]
    show numberOf _ * 10 + ((Char.ofNat (48 + d)).toNat - 48) = _
    rw [ih h.2, toNat_ofNat_digit d h.1, Nat.ofDigits_cons]
    omega

theorem le_foldl_digits (ds : List Char) (v : Nat) :
    v ≤ ds.foldl (fun n c => n * 10 + (c.toNat - 48)) v := by
  induction ds generalizing v with
  | nil => exact le_rfl
  | cons c ds ih =>
    rw [foldl_cons]
    have := ih (v * 10 + (c.toNat - 48))
    omega

theorem numberOf_decimal (n : Nat) : numberOf (decimal n) = n := by
  unfold decimal
  split
  next h =>
    rw [h]
    decide
  · rw [foldl_digits fun d hd => Nat.digits_lt_base (by omega) hd, Nat.ofDigits_digits]

theorem decimal_injective : Function.Injective decimal :=
  Function.LeftInverse.injective numberOf_decimal

theorem minus_notMem_decimal (n : Nat) : '-' ∉ decimal n := fun h =>
  absurd (isDigit_decimal h) (by decide)

theorem decimalInt_injective : Function.Injective decimalInt := by
  intro a b h
  unfold decimalInt at h
  split at h <;> split at h
  · have := decimal_injective (cons.inj h).2
    omega
  · exact absurd (h ▸ mem_cons_self) (minus_notMem_decimal _)
  · exact absurd (h ▸ mem_cons_self) (minus_notMem_decimal _)
  · have := decimal_injective h
    omega

theorem isBlank_of_isDigit (h : c.isDigit) : isBlank c = false := by
  have : 48 ≤ c.toNat := by
    simp only [Char.isDigit, Bool.and_eq_true, decide_eq_true_eq] at h
    exact h.1
  simp only [isBlank, Bool.or_eq_false_iff, decide_eq_false_iff_not, Bool.and_eq_false_iff]
  refine ⟨?_, .inr (by omega)⟩
  rintro rfl
  simp at this

/-- The character after a word or number does not belong to it. -/
def Ends (p : Char → Bool) (t : List Char) : Prop := ∀ c ∈ t.head?, p c = false

theorem ends_nil (p : Char → Bool) : Ends p [] := nofun

theorem ends_cons (h : p c = false := by decide) : Ends p (c :: t) := by
  rintro d ⟨⟩
  exact h

theorem takeWhile_append_ends {w : List Char} (hw : ∀ c ∈ w, p c) (ht : Ends p t) :
    (w ++ t).takeWhile p = w ∧ (w ++ t).dropWhile p = t := by
  rw [takeWhile_append_of_pos hw, dropWhile_append_of_pos hw]
  cases t with
  | nil => simp
  | cons c t =>
    have hc : p c = false := ht c rfl
    rw [takeWhile_cons_of_neg (by simp [hc]), dropWhile_cons_of_neg (by simp [hc])]
    exact ⟨append_nil w, rfl⟩

/-! ## Reading back -/

theorem dropWhile_blank (h : isBlank c = false) : (c :: t).dropWhile isBlank = c :: t := by
  rw [dropWhile_cons_of_neg (by rw [h]; exact nofun)]

theorem readWord_append {word : List Char} (hne : word ≠ []) (hw : ∀ c ∈ word, isBlank c = false)
    (hb : isBlank b) : readWord (word ++ b :: t) = some (word, b :: t) := by
  obtain ⟨c, cs, rfl⟩ := exists_cons_of_ne_nil hne
  have hc := hw c mem_cons_self
  have hall : ∀ a ∈ c :: cs, (!isBlank a) := fun a ha => by rw [hw a ha]; rfl
  unfold readWord
  simp only [cons_append, dropWhile_blank hc, isEmpty_cons, Bool.false_eq_true, if_false]
  rw [span_eq_takeWhile_dropWhile, ← cons_append, takeWhile_append_of_pos hall,
    dropWhile_append_of_pos hall, takeWhile_cons_of_neg (by simp [hb]),
    dropWhile_cons_of_neg (by simp [hb]), append_nil]

theorem readNumber_decimal (hn : n < 2 ^ 64) (hb : b.isDigit = false) :
    readNumber (decimal n ++ b :: t) = some (n, b :: t) := by
  obtain ⟨c, cs, hcs⟩ := exists_cons_of_ne_nil (decimal_ne_nil n)
  have hc : c.isDigit := isDigit_decimal (hcs ▸ mem_cons_self)
  have hall : ∀ a ∈ c :: cs, Char.isDigit a := fun a ha => isDigit_decimal (hcs ▸ ha)
  have hsign : ∀ d : Char, d.isDigit = false → c ≠ d := by
    rintro d hd rfl
    rw [hc] at hd
    cases hd
  have hnum : numberOf (c :: cs) = n := hcs ▸ numberOf_decimal n
  rw [hcs]
  unfold readNumber
  simp only [cons_append, dropWhile_blank (isBlank_of_isDigit hc)]
  split
  next h =>
    exact absurd (cons.inj h).1 (hsign '-' (by decide))
  next h =>
    exact absurd (cons.inj h).1 (hsign '+' (by decide))
  rw [← cons_append, takeWhile_append_of_pos hall, dropWhile_append_of_pos hall,
    takeWhile_cons_of_neg (by rw [hb]; exact nofun),
    dropWhile_cons_of_neg (by rw [hb]; exact nofun), append_nil, hnum]
  rw [if_neg (by simp; omega)]
  rfl

end

end Zepto.Lib
