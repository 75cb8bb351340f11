import Zepto.Auth.JsonClaims
import Zepto.Lib.JsonText

/-!
# Scanning well-formed texts

Every scan stops exactly where its part of the text ends: a string is decoded up to its closing
quote (`parseString_text`), a number is passed up to the first character that is none of its own
(`skipNumber_text`), and a value up to its last character, however deep it is nested
(`skipValue_text`).
-/

namespace Zepto.Auth

open List Zepto.Lib Zepto.Lib.JsonText

section

variable {c : Char} {b n : Nat} {t : List Char} {skip : List Char → Option (List Char)} {v : Value}
  {u : List Char}

theorem skipWhitespace_white (w : White) (t : List Char) :
    skipWhitespace (w.text ++ t) = skipWhitespace t :=
  dropWhile_append_of_pos fun c hc => by
    have h := w.white c hc
    simp only [isWhite, Bool.or_eq_true, decide_eq_true_eq] at h
    rcases h with ((rfl | rfl) | rfl) | rfl
    all_goals rfl

theorem skipWhitespace_cons {t : List Char} (h : isBlank c = false := by decide) :
    skipWhitespace (c :: t) = c :: t := dropWhile_blank h

/-! ## Strings -/

theorem isDigit_iff : c.isDigit ↔ 48 ≤ c.toNat ∧ c.toNat ≤ 57 := by
  simp only [Char.isDigit, Bool.and_eq_true, decide_eq_true_eq]
  exact .rfl

theorem hexValue_eq (h : isHex c) : hexValue c = some (hexDigit c) ∧ hexDigit c < 16 := by
  simp only [isHex, Bool.or_eq_true, Bool.and_eq_true, decide_eq_true_eq, isDigit_iff] at h
  unfold hexValue hexDigit
  simp only [isDigit_iff]
  rcases h with (h | h) | h
  · rw [if_pos h, if_pos h]
    exact ⟨rfl, by omega⟩
  · rw [if_neg (by omega), if_pos h, if_neg (by omega), if_pos h.1]
    exact ⟨by congr 1; omega, by omega⟩
  · rw [if_neg (by omega), if_neg (by omega), if_pos h, if_neg (by omega), if_neg (by omega)]
    exact ⟨by congr 1; omega, by omega⟩

theorem shift_or {a : Nat} (hb : b < 16) : a <<< 4 ||| b = a * 16 + b := by
  rw [← Nat.shiftLeft_add_eq_or_of_lt (show b < 2 ^ 4 from hb), Nat.shiftLeft_eq]

theorem readHex4_text (h : Hex4) (t : List Char) : readHex4 (h.text ++ t) = some (h.value, t) := by
  have hhex := h.hex
  simp only [forall_mem_cons] at hhex
  obtain ⟨ha, hb, hc, hd, -⟩ := hhex
  obtain ⟨ha, ha'⟩ := hexValue_eq ha
  obtain ⟨hb, hb'⟩ := hexValue_eq hb
  obtain ⟨hc, hc'⟩ := hexValue_eq hc
  obtain ⟨hd, hd'⟩ := hexValue_eq hd
  show readHex4 (h.a :: h.b :: h.c :: h.d :: t) = _
  rw [readHex4, ha, hb, hc, hd]
  show some ((((0 <<< 4 ||| hexDigit h.a) <<< 4 ||| hexDigit h.b) <<< 4 ||| hexDigit h.c) <<< 4 |||
    hexDigit h.d, t) = _
  rw [shift_or ha', shift_or hb', shift_or hc', shift_or hd', Nat.zero_add]
  rfl

theorem Hex4.value_lt (h : Hex4) : h.value < 0x10000 := by
  have hhex := h.hex
  simp only [forall_mem_cons] at hhex
  obtain ⟨ha, hb, hc, hd, -⟩ := hhex
  have := (hexValue_eq ha).2
  have := (hexValue_eq hb).2
  have := (hexValue_eq hc).2
  have := (hexValue_eq hd).2
  unfold Hex4.value
  omega

theorem or_lead {i : Nat} (hb : b < 2 ^ i) (lead : Nat) :
    2 ^ i * lead ||| b = b + 2 ^ i * lead := by
  rw [← Nat.two_pow_add_eq_or_of_lt hb, add_comm]

theorem toNat_byte (h : n < 256) : (UInt8.ofNat n).toNat = n := Nat.mod_eq_of_lt h

theorem appendUtf8_eq (h : n < 0xd800 ∨ 0xdfff < n ∧ n ≤ 0x10ffff) :
    appendUtf8 n = some (utf8 n) := by
  have hvalid : n.isValidChar := by
    rcases h with h | h
    · exact .inl h
    · exact .inr ⟨h.1, by omega⟩
  have hval : (Char.ofNat n).val.toNat = n := by
    rw [Char.ofNat, dif_pos hvalid]
    rfl
  have hand : ∀ m : Nat, m &&& 0x3f = m % 64 := fun m => Nat.and_two_pow_sub_one_eq_mod m 6
  have htail : ∀ m : Nat, 0x80 ||| m &&& 0x3f = m % 64 + 128 := fun m => by
    rw [hand]
    exact or_lead (Nat.mod_lt m (by decide : 0 < 2 ^ 6)) 2
  have hbyte : ∀ m : Nat, (UInt8.ofNat (m % 64 + 128)).toNat = m % 64 + 128 := fun m =>
    toNat_byte (by omega)
  unfold appendUtf8 utf8 String.utf8EncodeChar
  simp only [hval, htail, Nat.shiftRight_eq_div_pow]
  rw [if_neg (by omega)]
  split
  · rw [map_singleton, toNat_byte (by omega)]
  split
  · have hlead : 0xc0 ||| n / 2 ^ 6 = n / 64 % 32 + 192 := by
      rw [Nat.mod_eq_of_lt (by omega)]
      exact or_lead (show n / 64 < 2 ^ 5 by omega) 6
    simp only [map_cons, map_nil, hbyte, hlead]
    rw [toNat_byte (by omega)]
  split
  · have hlead : 0xe0 ||| n / 2 ^ 12 = n / 4096 % 16 + 224 := by
      rw [Nat.mod_eq_of_lt (by omega)]
      exact or_lead (show n / 4096 < 2 ^ 4 by omega) 14
    simp only [map_cons, map_nil, hbyte, hlead]
    rw [toNat_byte (by omega)]
  · have hlead : 0xf0 ||| n / 2 ^ 18 = n / 262144 % 8 + 240 := by
      rw [Nat.mod_eq_of_lt (by omega)]
      exact or_lead (show n / 262144 < 2 ^ 3 by omega) 30
    simp only [map_cons, map_nil, hbyte, hlead]
    rw [toNat_byte (by omega)]

theorem readEscape_escape (e : Escape) (t : List Char) :
    readEscape (e.letter :: t) = some ([e.meaning], t) := by
  cases e with
  | quote | backslash | slash | backspace | formFeed | lineFeed | carriageReturn | tab => rfl

theorem readEscape_unicode {code : Hex4} (h : code.value < 0xd800 ∨ 0xdfff < code.value)
    (t : List Char) : readEscape ('u' :: (code.text ++ t)) = some (utf8 code.value, t) := by
  have hlt := Hex4.value_lt code
  rw [readEscape, readHex4_text]
  show (if 0xd800 ≤ code.value ∧ code.value ≤ 0xdbff then readLow code.value t
    else (appendUtf8 code.value).bind fun bytes => some (bytes, t)) = _
  rw [if_neg (by omega), appendUtf8_eq (by omega)]
  rfl

theorem readEscape_pair {high low : Hex4} (hhigh : 0xd800 ≤ high.value ∧ high.value ≤ 0xdbff)
    (hlow : 0xdc00 ≤ low.value ∧ low.value ≤ 0xdfff) (t : List Char) :
    readEscape ('u' :: (high.text ++ '\\' :: 'u' :: (low.text ++ t))) =
      some (utf8 (0x10000 + (high.value - 0xd800) * 0x400 + (low.value - 0xdc00)), t) := by
  rw [readEscape, readHex4_text]
  show (if 0xd800 ≤ high.value ∧ high.value ≤ 0xdbff then
      readLow high.value ('\\' :: 'u' :: (low.text ++ t)) else _) = _
  rw [if_pos hhigh, readLow, readHex4_text]
  show (if low.value < 0xdc00 ∨ low.value > 0xdfff then none
    else (appendUtf8 (0x10000 + (high.value - 0xd800) <<< 10 + (low.value - 0xdc00))).bind
      fun bytes => some (bytes, t)) = _
  rw [if_neg (by omega), Nat.shiftLeft_eq, appendUtf8_eq (by omega)]
  rfl

theorem parseChars_part (p : Part) (fuel : Nat) (t : List Char) :
    parseChars (fuel + 1) (p.text ++ t) =
      (parseChars fuel t).map fun r => (p.decoded ++ r.1, r.2) := by
  have hescape : ∀ {bytes u : List Char}, readEscape u = some (bytes, t) →
      parseChars (fuel + 1) ('\\' :: u) = (parseChars fuel t).map fun r => (bytes ++ r.1, r.2) := by
    intro bytes u h
    rw [parseChars, h]
    show ((parseChars fuel t).bind fun r => some (bytes ++ r.1, r.2)) = _
    cases parseChars fuel t with
    | none | some r => rfl
  cases p with
  | plain c hquote hbackslash hcontrol =>
    show parseChars (fuel + 1) (c :: t) = _
    rw [parseChars, if_neg hquote, if_neg (by omega), if_pos hbackslash]
    cases parseChars fuel t with
    | none | some r => rfl
  | escape e => exact hescape (readEscape_escape e t)
  | unicode code h => exact hescape (readEscape_unicode h t)
  | pair high low hhigh hlow =>
    have h := hescape (readEscape_pair hhigh hlow t)
    exact h

theorem Part.text_pos (p : Part) : 0 < p.text.length := by
  cases p with
  | plain => exact one_pos
  | escape => exact two_pos
  | unicode | pair => exact Nat.succ_pos _

theorem parseChars_parts (s : Str) (t : List Char) {fuel : Nat}
    (hfuel : (s.flatMap Part.text).length < fuel) :
    parseChars fuel (s.flatMap Part.text ++ '"' :: t) = some (s.decoded, t) := by
  obtain ⟨fuel, rfl⟩ : ∃ n, fuel = n + 1 := ⟨fuel - 1, by omega⟩
  induction s generalizing fuel with
  | nil => rfl
  | cons p s ih =>
    have hpos := Part.text_pos p
    rw [flatMap_cons, length_append] at hfuel
    obtain ⟨fuel, rfl⟩ : ∃ n, fuel = n + 1 := ⟨fuel - 1, by omega⟩
    rw [flatMap_cons, append_assoc, parseChars_part, ih fuel (by omega)]
    rfl

/-- A string is decoded, and the scan stops behind its closing quote. -/
theorem parseString_text (s : Str) (t : List Char) :
    parseString (s.text ++ t) = some (s.decoded, t) := by
  have htext : s.text ++ t = '"' :: (s.flatMap Part.text ++ '"' :: t) := by
    rw [Str.text, cons_append, append_assoc]
    rfl
  rw [htext]
  apply parseChars_parts
  rw [length_append]
  omega

/-! ## Numbers -/

def isNumberPart (c : Char) : Bool := c.isDigit || c = '.' || c = 'e' || c = 'E'

theorem ends_isDigit (h : Ends isNumberPart t) : Ends Char.isDigit t := by
  intro c hc
  have := h c hc
  simp only [isNumberPart, Bool.or_eq_false_iff] at this
  exact this.1.1.1

theorem Digits.cons (d : Digits) : ∃ c cs, d.text = c :: cs ∧ c.isDigit := by
  obtain ⟨c, cs, h⟩ := exists_cons_of_ne_nil d.nonempty
  exact ⟨c, cs, h, d.digits c (h ▸ mem_cons_self)⟩

theorem skipDigits_text (d : Digits) (ht : Ends Char.isDigit t) :
    skipDigits (d.text ++ t) = some t := by
  obtain ⟨htake, hdrop⟩ := takeWhile_append_ends d.digits ht
  rw [skipDigits, htake, hdrop, if_neg (by simpa using d.nonempty)]

theorem ne_of_isDigit {d : Char} (h : c.isDigit) (hd : d.isDigit = false) : c ≠ d := by
  rintro rfl
  exact absurd (h.symm.trans hd) (by decide)

theorem skipInteger_text (n : Number) (ht : Ends Char.isDigit t) :
    skipInteger (n.whole.text ++ t) = some t := by
  obtain ⟨-, hdrop⟩ := takeWhile_append_ends n.whole.digits ht
  obtain ⟨c, cs, htext, hdigit⟩ := Digits.cons n.whole
  have hcanonical := n.canonical
  rw [htext] at hdrop hcanonical ⊢
  rw [cons_append, skipInteger]
  by_cases hzero : c = '0'
  · rw [if_pos hzero]
    rcases hcanonical with h | h
    · rw [(cons.inj h).2]
      rfl
    · exact absurd (congrArg some hzero) h
  · have hne : c.toNat ≠ 48 := fun h => hzero (Char.toNat_inj.mp h)
    have hrange := isDigit_iff.mp hdigit
    rw [if_neg hzero, if_pos (by omega)]
    exact congrArg some hdrop

theorem skipMinus_text (n : Number) :
    skipMinus (n.signText ++ (n.whole.text ++ t)) = n.whole.text ++ t := by
  obtain ⟨c, cs, htext, hdigit⟩ := Digits.cons n.whole
  unfold Number.signText
  split
  · rfl
  · rw [htext, nil_append, skipMinus.eq_2]
    exact fun u h => ne_of_isDigit hdigit (by decide) (cons.inj h).1

theorem skipFraction_text (n : Number) (ht : Ends Char.isDigit t) (hdot : t.head? ≠ some '.') :
    skipFraction (n.fractionText ++ t) = some t := by
  unfold Number.fractionText
  cases n.fraction with
  | none =>
    show skipFraction t = some t
    rw [skipFraction.eq_2]
    rintro u rfl
    exact hdot rfl
  | some f => exact skipDigits_text f ht

theorem skipSign_text (e : Exponent) :
    skipSign (e.sign ++ (e.digits.text ++ t)) = e.digits.text ++ t := by
  obtain ⟨c, cs, htext, hdigit⟩ := Digits.cons e.digits
  rcases e.isSign with h | h | h
  · rw [h, htext, nil_append, skipSign.eq_3]
    all_goals exact fun u h => ne_of_isDigit hdigit (by decide) (cons.inj h).1
  all_goals
    rw [h]
    rfl

theorem skipExponent_text (n : Number) (ht : Ends isNumberPart t) :
    skipExponent (n.exponentText ++ t) = some t := by
  unfold Number.exponentText
  cases n.exponent with
  | none =>
    show skipExponent t = some t
    rw [skipExponent.eq_3]
    · rintro u rfl
      exact absurd (ht 'e' rfl) (by decide)
    · rintro u rfl
      exact absurd (ht 'E' rfl) (by decide)
  | some e =>
    have hdigits : skipDigits (skipSign (e.sign ++ e.digits.text ++ t)) = some t := by
      rw [append_assoc, skipSign_text, skipDigits_text e.digits (ends_isDigit ht)]
    show skipExponent (e.letter :: (e.sign ++ e.digits.text ++ t)) = some t
    rcases e.isLetter with h | h
    all_goals
      rw [h]
      exact hdigits

theorem exponent_head (n : Number) (ht : Ends isNumberPart t) :
    Ends Char.isDigit (n.exponentText ++ t) ∧ (n.exponentText ++ t).head? ≠ some '.' := by
  unfold Number.exponentText
  cases n.exponent with
  | none =>
    refine ⟨ends_isDigit ht, fun h => ?_⟩
    exact absurd (ht '.' h) (by decide)
  | some e =>
    show Ends Char.isDigit (e.letter :: _) ∧ some e.letter ≠ some '.'
    rcases e.isLetter with h | h
    all_goals
      rw [h]
      exact ⟨ends_cons, by decide⟩

theorem fraction_head (n : Number) (ht : Ends Char.isDigit t) :
    Ends Char.isDigit (n.fractionText ++ t) := by
  unfold Number.fractionText
  cases n.fraction with
  | none => exact ht
  | some f => exact ends_cons

/-- A number is passed up to its last character. -/
theorem skipNumber_text (n : Number) (ht : Ends isNumberPart t) :
    skipNumber (n.text ++ t) = some t := by
  obtain ⟨hdigit, hdot⟩ := exponent_head n ht
  simp only [Number.text, append_assoc]
  rw [skipNumber, skipMinus_text, skipInteger_text n (fraction_head n hdigit)]
  show (skipFraction (n.fractionText ++ (n.exponentText ++ t))).bind skipExponent = _
  rw [skipFraction_text n hdigit hdot]
  exact skipExponent_text n ht

/-! ## Values -/

def isValueStart (c : Char) : Bool :=
  c = '"' || c = '-' || c.isDigit || c = 't' || c = 'f' || c = 'n' || c = '[' || c = '{'

theorem isValueStart_facts (h : isValueStart c) : isBlank c = false ∧ c ≠ ']' ∧ c ≠ '}' := by
  simp only [isValueStart, Bool.or_eq_true, decide_eq_true_eq] at h
  rcases h with ((((((rfl | rfl) | h) | rfl) | rfl) | rfl) | rfl) | rfl
  case inl.inl.inl.inl.inl.inr =>
    exact ⟨isBlank_of_isDigit h, ne_of_isDigit h (by decide), ne_of_isDigit h (by decide)⟩
  all_goals decide

theorem Number.text_cons (n : Number) : ∃ c u, n.text = c :: u ∧ (c = '-' ∨ c.isDigit) := by
  obtain ⟨c, cs, htext, hdigit⟩ := Digits.cons n.whole
  unfold Number.text Number.signText
  split
  · exact ⟨_, _, rfl, .inl rfl⟩
  · rw [htext]
    exact ⟨_, _, rfl, .inr hdigit⟩

theorem Value.text_cons (v : Value) : ∃ c u, v.text = c :: u ∧ isValueStart c := by
  cases v with
  | string s => exact ⟨_, _, by rw [Value.text, Str.text], rfl⟩
  | number n =>
    obtain ⟨c, u, htext, hc⟩ := Number.text_cons n
    refine ⟨c, u, by rw [Value.text, htext], ?_⟩
    rcases hc with rfl | hc
    · rfl
    · simp [isValueStart, hc]
  | bool b =>
    cases b with
    | true | false => exact ⟨_, _, by rw [Value.text], rfl⟩
  | null | emptyArray w | array w es | emptyObject w
  | object w ms => exact ⟨_, _, by rw [Value.text], rfl⟩

theorem skipWhitespace_value (v : Value) (t : List Char) :
    skipWhitespace (v.text ++ t) = v.text ++ t := by
  obtain ⟨c, u, htext, hc⟩ := Value.text_cons v
  rw [htext]
  exact skipWhitespace_cons (isValueStart_facts hc).1

theorem Elements.text_cons (es : Elements) : ∃ c u, es.text = c :: u ∧ isValueStart c := by
  cases es with
  | last v w | more v w w' rest =>
    obtain ⟨c, u, htext, hc⟩ := Value.text_cons v
    exact ⟨c, _, by rw [Elements.text, htext, cons_append], hc⟩

theorem skipWhitespace_elements (w : White) (es : Elements) (t : List Char) :
    skipWhitespace (w.text ++ (es.text ++ t)) = es.text ++ t := by
  obtain ⟨c, u, htext, hc⟩ := Elements.text_cons es
  rw [skipWhitespace_white, htext]
  exact skipWhitespace_cons (isValueStart_facts hc).1

theorem Members.text_cons (ms : Members) : ∃ u, ms.text = '"' :: u := by
  cases ms with
  | last | more => exact ⟨_, by rw [Members.text, Str.text, cons_append]⟩

theorem skipWhitespace_members (w : White) (ms : Members) (t : List Char) :
    skipWhitespace (w.text ++ (ms.text ++ t)) = ms.text ++ t := by
  obtain ⟨u, htext⟩ := Members.text_cons ms
  rw [skipWhitespace_white, htext]
  exact skipWhitespace_cons

theorem ends_value (w : White) (hc : isNumberPart c = false) (t : List Char) :
    Ends isNumberPart (w.text ++ c :: t) := by
  cases htext : w.text with
  | nil => exact ends_cons hc
  | cons d u =>
    have hd : isWhite d := w.white d (htext ▸ mem_cons_self)
    refine ends_cons ?_
    simp only [isWhite, Bool.or_eq_true, decide_eq_true_eq] at hd
    rcases hd with ((rfl | rfl) | rfl) | rfl
    all_goals decide

theorem skipValue_number (hc : c = '-' ∨ c.isDigit) (k : Nat) (t : List Char) :
    skipValue (k + 1) (c :: t) = skipNumber (c :: t) := by
  have hblank : isBlank c = false := by
    rcases hc with rfl | hc
    · rfl
    · exact isBlank_of_isDigit hc
  have hne : ∀ d ∈ ['"', '{', '[', 't', 'f', 'n'], c ≠ d := by
    rintro d hd rfl
    rcases hc with rfl | hc
    · exact absurd hd (by decide)
    · simp only [mem_cons, not_mem_nil, or_false] at hd
      rcases hd with rfl | rfl | rfl | rfl | rfl | rfl
      all_goals exact absurd hc (by decide)
  rw [skipValue, skipWhitespace_cons hblank]
  split
  next h =>
    cases h
  all_goals
    rename_i h
    first
    | rfl
    | exact absurd (cons.inj h).1 (hne _ (by decide))

theorem skipElements_round (hskip : skip (v.text ++ u) = some u) (fuel : Nat) :
    skipElements skip (fuel + 1) (v.text ++ u) = match skipWhitespace u with
      | ',' :: t => skipElements skip fuel (skipWhitespace t)
      | ']' :: t => some t
      | _ => none := by
  obtain ⟨c, cs, htext, -⟩ := Value.text_cons v
  rw [htext] at hskip ⊢
  rw [skipElements, hskip]
  · rfl
  · exact nofun

theorem skipMembers_round (hskip : skip (v.text ++ u) = some u) (name : Str) (w1 w2 : White)
    (fuel : Nat) : skipMembers skip (fuel + 1)
        (name.text ++ (w1.text ++ ':' :: (w2.text ++ (v.text ++ u)))) =
      match skipWhitespace u with
      | ',' :: t => skipMembers skip fuel (skipWhitespace t)
      | '}' :: t => some t
      | _ => none := by
  have hname := parseString_text name (w1.text ++ ':' :: (w2.text ++ (v.text ++ u)))
  rw [skipMembers, hname]
  · simp only [Option.bind_eq_bind, Option.bind_some, skipWhitespace_white,
      skipWhitespace_cons (c := ':'), skipWhitespace_value]
    rw [hskip]
    rfl
  · exact cons_ne_nil _ _

end

mutual

/-- A value is passed up to its last character, however it is nested. -/
theorem skipValue_text (v : Value) {k : Nat} {t : List Char} (hk : v.levels < k)
    (ht : Ends isNumberPart t) : skipValue k (v.text ++ t) = some t := by
  obtain ⟨k, rfl⟩ : ∃ n, k = n + 1 := ⟨k - 1, by omega⟩
  cases v with
  | string s =>
    have hs := parseString_text s t
    rw [Value.text]
    rw [Str.text, cons_append] at hs ⊢
    show (parseString _).map Prod.snd = _
    rw [hs]
    rfl
  | number n =>
    obtain ⟨c, u, htext, hc⟩ := Number.text_cons n
    rw [Value.text, ← skipNumber_text n ht, htext]
    exact skipValue_number hc k _
  | bool b =>
    cases b with
    | true | false => rw [Value.text]; rfl
  | null => rw [Value.text]; rfl
  | emptyArray w =>
    rw [Value.text, cons_append, append_assoc, skipValue]
    show skipArray _ (w.text ++ ']' :: t) = _
    rw [skipArray, skipWhitespace_white]
    rfl
  | array w es =>
    rw [Value.levels] at hk
    rw [Value.text, cons_append, append_assoc, append_assoc, skipValue]
    show skipArray _ (w.text ++ (es.text ++ ']' :: t)) = _
    rw [skipArray, skipWhitespace_white]
    obtain ⟨c, u, htext, hc⟩ := Elements.text_cons es
    obtain ⟨hblank, hbracket, -⟩ := isValueStart_facts hc
    have hloop : skipElements (skipValue k) ((es.text ++ ']' :: t).length + 1)
        (es.text ++ ']' :: t) = some t :=
      skipElements_text es (by omega) (by rw [length_append]; omega)
    rw [htext, cons_append] at hloop ⊢
    rw [skipWhitespace_cons hblank]
    split
    next h =>
      exact absurd (cons.inj h).1 hbracket
    · exact hloop
  | emptyObject w =>
    rw [Value.text, cons_append, append_assoc, skipValue]
    show skipObject _ (w.text ++ '}' :: t) = _
    rw [skipObject, skipWhitespace_white]
    rfl
  | object w ms =>
    rw [Value.levels] at hk
    rw [Value.text, cons_append, append_assoc, append_assoc, skipValue]
    show skipObject _ (w.text ++ (ms.text ++ '}' :: t)) = _
    rw [skipObject, skipWhitespace_white]
    obtain ⟨u, htext⟩ := Members.text_cons ms
    have hloop : skipMembers (skipValue k) ((ms.text ++ '}' :: t).length + 1)
        (ms.text ++ '}' :: t) = some t :=
      skipMembers_text ms (by omega) (by rw [length_append]; omega)
    rw [htext] at hloop ⊢
    exact hloop

theorem skipElements_text (es : Elements) {k fuel : Nat} {t : List Char} (hk : es.levels < k)
    (hfuel : es.text.length < fuel) :
    skipElements (skipValue k) fuel (es.text ++ ']' :: t) = some t := by
  obtain ⟨fuel, rfl⟩ : ∃ n, fuel = n + 1 := ⟨fuel - 1, by omega⟩
  cases es with
  | last v w =>
    have hv := skipValue_text v hk (ends_value w (by decide : isNumberPart ']' = false) t)
    rw [Elements.text, append_assoc, skipElements_round hv, skipWhitespace_white]
    rfl
  | more v w w' rest =>
    rw [Elements.levels] at hk
    simp only [Elements.text, length_append, length_cons] at hfuel
    simp only [Elements.text, append_assoc, cons_append]
    have hv := skipValue_text v (k := k) (by omega)
      (ends_value w (by decide : isNumberPart ',' = false) (w'.text ++ (rest.text ++ ']' :: t)))
    rw [skipElements_round hv, skipWhitespace_white]
    show skipElements _ fuel (skipWhitespace _) = _
    rw [skipWhitespace_elements]
    exact skipElements_text rest (by omega) (by omega)

theorem skipMembers_text (ms : Members) {k fuel : Nat} {t : List Char} (hk : ms.levels < k)
    (hfuel : ms.text.length < fuel) :
    skipMembers (skipValue k) fuel (ms.text ++ '}' :: t) = some t := by
  obtain ⟨fuel, rfl⟩ : ∃ n, fuel = n + 1 := ⟨fuel - 1, by omega⟩
  cases ms with
  | last name w1 w2 v w =>
    have hv := skipValue_text v hk (ends_value w (by decide : isNumberPart '}' = false) t)
    simp only [Members.text, append_assoc, cons_append]
    rw [skipMembers_round hv, skipWhitespace_white]
    rfl
  | more name w1 w2 v w w' rest =>
    rw [Members.levels] at hk
    simp only [Members.text, length_append, length_cons] at hfuel
    simp only [Members.text, append_assoc, cons_append]
    have hv := skipValue_text v (k := k) (by omega)
      (ends_value w (by decide : isNumberPart ',' = false) (w'.text ++ (rest.text ++ '}' :: t)))
    rw [skipMembers_round hv, skipWhitespace_white]
    show skipMembers _ fuel (skipWhitespace _) = _
    rw [skipWhitespace_members]
    exact skipMembers_text rest (by omega) (by omega)

end

end Zepto.Auth
