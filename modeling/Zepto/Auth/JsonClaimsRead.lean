import Zepto.Auth.JsonScan

/-!
# The claims of a well-formed text

On the text of an object nested no deeper than 64 levels below it, a reader answers from the members
of the object alone (`json_claims_read`): the value of the only member of the name, decoded.
-/

namespace Zepto.Auth

open List Zepto.Lib Zepto.Lib.JsonText Option

/-! ## Members -/

def named (key : List Char) (ms : List (List Char × Value)) : List (List Char × Value) :=
  ms.filter fun m => m.1 = key

/-- What `find_member` is to answer: the text from the value of the only member of the name. -/
inductive Found (key : List Char) : List (List Char × Value) → JsonField (List Char) → Prop
  | missing {ms : List (List Char × Value)} : named key ms = [] → Found key ms .Missing
  | valid {ms : List (List Char × Value)} {name : List Char} {v : Value} {u : List Char} :
      named key ms = [(name, v)] → Ends isNumberPart u → Found key ms (.Valid (v.text ++ u))
  | twice {ms : List (List Char × Value)} : 1 < (named key ms).length → Found key ms .Invalid

theorem findMembers_round (key : List Char) {v : Value} {u : List Char}
    (hv : v.levels ≤ 64) (hu : Ends isNumberPart u) (name : Str) (w1 w2 : White) (fuel : Nat)
    (found : Option (List Char)) :
    findMembers key (fuel + 1) found (name.text ++ (w1.text ++ ':' :: (w2.text ++ (v.text ++ u)))) =
      if name.decoded = key ∧ found.isSome then none
      else
        match skipWhitespace u with
        | ',' :: t => findMembers key fuel
            (if name.decoded = key then some (v.text ++ u) else found) (skipWhitespace t)
        | '}' :: t => some (if name.decoded = key then some (v.text ++ u) else found, t)
        | _ => none := by
  have hname := parseString_text name (w1.text ++ ':' :: (w2.text ++ (v.text ++ u)))
  rw [findMembers, hname]
  · have hskip := skipValue_text v (k := 65) (by omega) hu
    simp only [Option.bind_eq_bind, Option.bind_some, skipWhitespace_white,
      skipWhitespace_cons (c := ':'), skipWhitespace_value]
    rw [hskip]
    rfl
  · exact cons_ne_nil _ _

/-- What was found before and what is found in the members, as one. -/
def Joined (key : List Char) (before : Option (List Char)) (ms : List (List Char × Value))
    (t : List Char) (r : Option (Option (List Char) × List Char)) : Prop :=
  (named key ms = [] ∧ r = some (before, t)) ∨
  (∃ name v u, before = none ∧ named key ms = [(name, v)] ∧ Ends isNumberPart u ∧
    r = some (some (v.text ++ u), t)) ∨
  (1 < before.toList.length + (named key ms).length ∧ r = none)

theorem findMembers_text (key : List Char) (ms : Members) (hlevels : ms.levels ≤ 64) {fuel : Nat}
    (hfuel : ms.text.length < fuel) (before : Option (List Char)) (t : List Char) :
    Joined key before ms.toList t (findMembers key fuel before (ms.text ++ '}' :: t)) := by
  obtain ⟨fuel, rfl⟩ : ∃ n, fuel = n + 1 := ⟨fuel - 1, by omega⟩
  cases ms with
  | last name w1 w2 v w =>
    have hend := ends_value w (by decide : isNumberPart '}' = false) t
    simp only [Members.text, append_assoc, cons_append]
    rw [findMembers_round key hlevels hend, skipWhitespace_white, Members.toList]
    by_cases hname : name.decoded = key
    · have hnamed : named key [(name.decoded, v)] = [(name.decoded, v)] := by simp [named, hname]
      cases before with
      | none =>
        rw [if_neg (by simp), if_pos hname]
        exact .inr (.inl ⟨_, v, _, rfl, hnamed, hend, rfl⟩)
      | some found =>
        rw [if_pos ⟨hname, rfl⟩]
        exact .inr (.inr ⟨by rw [hnamed]; exact lt_add_one 1, rfl⟩)
    · rw [if_neg (fun h => hname h.1), if_neg hname]
      exact .inl ⟨by simp [named, hname], rfl⟩
  | more name w1 w2 v w w' rest =>
    rw [Members.levels] at hlevels
    simp only [Members.text, length_append, length_cons] at hfuel
    have hend := ends_value w (by decide : isNumberPart ',' = false)
      (w'.text ++ (rest.text ++ '}' :: t))
    simp only [Members.text, append_assoc, cons_append]
    rw [findMembers_round key (by omega) hend, skipWhitespace_white, Members.toList]
    show Joined key before _ t (if _ then none else findMembers key fuel _ (skipWhitespace _))
    rw [skipWhitespace_members]
    have ih := findMembers_text key rest (by omega) (show rest.text.length < fuel by omega)
    by_cases hname : name.decoded = key
    · have hnamed : named key ((name.decoded, v) :: rest.toList) =
          (name.decoded, v) :: named key rest.toList := by simp [named, hname]
      cases before with
      | none =>
        rw [if_neg (by simp), if_pos hname]
        -- A second member of the name would be met with the first one found.
        rcases ih (some _) t with ⟨hnone, hr⟩ | ⟨_, _, _, hbefore, _⟩ | ⟨htwo, hr⟩
        · exact .inr (.inl ⟨_, v, _, rfl, by rw [hnamed, hnone], hend, hr⟩)
        · cases hbefore
        refine .inr (.inr ⟨?_, hr⟩)
        rw [hnamed, length_cons]
        simp only [toList_some, length_singleton] at htwo
        omega
      | some found =>
        rw [if_pos ⟨hname, rfl⟩]
        refine .inr (.inr ⟨?_, rfl⟩)
        rw [hnamed, length_cons, toList_some, length_singleton]
        omega
    · have hnamed : named key ((name.decoded, v) :: rest.toList) = named key rest.toList := by
        simp [named, hname]
      rw [if_neg (fun h => hname h.1), if_neg hname, Joined, hnamed]
      exact ih before t

section

variable (o : ObjectText) (h : o.levels ≤ 64) (key : List Char)

include o h key

theorem findInObject_text : Joined key none o.toList o.after.text
      (findInObject key (o.opening.text ++ ((o.members.map Members.text).getD [] ++ '}' ::
        o.after.text))) := by
  unfold ObjectText.levels at h
  unfold findInObject ObjectText.toList
  rw [skipWhitespace_white]
  cases hmembers : o.members with
  | none =>
    exact .inl ⟨rfl, rfl⟩
  | some ms =>
    rw [hmembers] at h
    obtain ⟨u, htext⟩ := Members.text_cons ms
    have hloop := findMembers_text key ms h
      (show ms.text.length < (ms.text ++ '}' :: o.after.text).length + 1 by
        rw [length_append]; omega) none o.after.text
    simp only [map_some]
    rw [htext] at hloop ⊢
    exact hloop

theorem findMember_found : Found key o.toList (findMember o.text key) := by
  have hafter : skipWhitespace o.after.text = [] := by
    have := skipWhitespace_white o.after []
    rwa [append_nil] at this
  rw [ObjectText.text, findMember, skipWhitespace_white, skipWhitespace_cons]
  rcases findInObject_text o h key with ⟨hnone, hr⟩ | ⟨name, v, u, -, hone, hend, hr⟩ | ⟨htwo, hr⟩
  · simp only [hr, hafter]
    exact .missing hnone
  · simp only [hr, hafter]
    exact .valid hone hend
  · simp only [hr]
    refine .twice ?_
    simpa using htwo

end

/-! ## The readers -/

/-- The claim of a name: the value of its only member, in the form asked for. -/
def claim {α : Type} (form : Value → Option α) (o : ObjectText) (key : List Char) : JsonField α :=
  match named key o.toList with
  | [] => .Missing
  | [(_, v)] =>
    match form v with
    | some a => .Valid a
    | none => .Invalid
  | _ => .Invalid

def asString : Value → Option (List Char)
  | .string s => some s.decoded
  | _ => none

def asInt64 : Value → Option Int
  | .number n => n.integer?.filter fun z => int64Min ≤ z ∧ z ≤ int64Max
  | _ => none

def asBool : Value → Option Bool
  | .bool b => some b
  | _ => none

def asStringArray : Value → Option (List (List Char))
  | .emptyArray _ => some []
  | .array _ es => es.toList.mapM asString
  | _ => none

/-- A reader that decodes no more than the value gives the claim. -/
theorem readMember_eq_claim {α : Type} {decode : List Char → Option α} {form : Value → Option α}
    (hdecode : ∀ (v : Value) (t : List Char), Ends isNumberPart t → decode (v.text ++ t) = form v)
    (o : ObjectText) (h : o.levels ≤ 64) (key : List Char) :
    readMember decode o.text key = claim form o key := by
  unfold readMember claim
  have hfound := findMember_found o h key
  generalize findMember o.text key = found at hfound
  cases hfound with
  | missing hnone => rw [hnone]
  | valid hone hend =>
    rw [hone]
    simp only [hdecode _ _ hend]
    cases form _ with
    | none | some a => rfl
  | twice htwo =>
    match named key o.toList, htwo with
    | _ :: _ :: _, _ => rfl

variable {c : Char}

theorem parseString_number (hc : c = '-' ∨ c.isDigit) (t : List Char) :
    parseString (c :: t) = none := by
  rw [parseString.eq_2]
  rintro u h
  rw [(cons.inj h).1] at hc
  exact absurd hc (by decide)

theorem parseString_value (v : Value) (t : List Char) :
    (parseString (v.text ++ t)).map Prod.fst = asString v := by
  cases v with
  | string s =>
    rw [Value.text, parseString_text]
    rfl
  | number n =>
    obtain ⟨c, u, htext, hc⟩ := Number.text_cons n
    rw [Value.text, htext, cons_append, parseString_number hc]
    rfl
  | bool b =>
    cases b with
    | true | false => rw [Value.text]; rfl
  | null | emptyArray w | array w es | emptyObject w | object w ms => rw [Value.text]; rfl

/-! ### Integers -/

def wholeValue (n : Number) : Int :=
  if n.negative then -(numberOf n.whole.text : Int) else numberOf n.whole.text

theorem head_text (n : Number) : n.text.head? = some '-' ↔ n.negative := by
  obtain ⟨c, cs, htext, hdigit⟩ := Digits.cons n.whole
  unfold Number.text Number.signText
  cases n.negative with
  | true => simp
  | false =>
    have hne : c ≠ '-' := by
      rintro rfl
      exact absurd hdigit (by decide)
    simp [htext, hne]

theorem fromChars_text (n : Number) : fromChars n.text =
      if int64Min ≤ wholeValue n ∧ wholeValue n ≤ int64Max then
        some (wholeValue n, n.fractionText ++ n.exponentText)
      else none := by
  have hend : Ends Char.isDigit (n.fractionText ++ n.exponentText) := by
    have := fraction_head n (exponent_head n (ends_nil isNumberPart)).1
    rwa [append_nil] at this
  obtain ⟨htake, hdrop⟩ := takeWhile_append_ends n.whole.digits hend
  have hminus : skipMinus n.text = n.whole.text ++ (n.fractionText ++ n.exponentText) :=
    skipMinus_text n
  unfold fromChars
  simp only [hminus, htake, hdrop, head_text]
  rw [if_neg (by simpa using n.whole.nonempty)]
  rfl

section

variable (hminus : c ≠ '-') (hdigit : c.isDigit = false) (t : List Char)

include hminus hdigit t

theorem skipNumber_ne : skipNumber (c :: t) = none := by
  have hrange : ¬(48 ≤ c.toNat ∧ c.toNat ≤ 57) := fun h => by
    rw [isDigit_iff.mpr h] at hdigit
    cases hdigit
  have hzero : c ≠ '0' := by
    rintro rfl
    exact absurd hdigit (by decide)
  rw [skipNumber, skipMinus.eq_2 _ (fun u h => hminus (cons.inj h).1), skipInteger,
    if_neg hzero, if_neg (by omega)]
  rfl

theorem decodeInt64_none : decodeInt64 (c :: t) = none := by
  rw [decodeInt64, skipNumber_ne hminus hdigit]
  rfl

end

theorem decodeInt64_number (n : Number) {t : List Char} (ht : Ends isNumberPart t) :
    decodeInt64 (n.text ++ t) = asInt64 (.number n) := by
  simp only [decodeInt64, skipNumber_text n ht, asInt64, bind, Option.bind]
  rw [length_append, Nat.add_sub_cancel, take_left, fromChars_text, Number.integer?]
  by_cases hint : n.fraction.isNone ∧ n.exponent.isNone
  · have hrest : n.fractionText ++ n.exponentText = [] := by
      rw [isNone_iff_eq_none, isNone_iff_eq_none] at hint
      rw [Number.fractionText, Number.exponentText, hint.1, hint.2]
      rfl
    rw [hrest, if_pos hint]
    show _ = (some (wholeValue n)).filter _
    split_ifs with hrange
    · rw [filter_some_pos (by simpa using hrange)]
    · rw [filter_some_neg (by simpa using hrange)]
  · have hrest : n.fractionText ++ n.exponentText ≠ [] := by
      intro h
      rw [append_eq_nil_iff, Number.fractionText, Number.exponentText] at h
      refine hint ⟨?_, ?_⟩
      · cases hf : n.fraction with
        | none => rfl
        | some f => rw [hf] at h; cases h.1
      · cases he : n.exponent with
        | none => rfl
        | some e => rw [he] at h; cases h.2
    rw [if_neg hint]
    obtain ⟨c, u, hcons⟩ := exists_cons_of_ne_nil hrest
    rw [hcons]
    split
    next heq =>
      split at heq
      all_goals cases heq
    · rfl

theorem decodeInt64_value (v : Value) {t : List Char} (ht : Ends isNumberPart t) :
    decodeInt64 (v.text ++ t) = asInt64 v := by
  cases v with
  | string s =>
    exact decodeInt64_none (by decide) (by decide) _
  | number n =>
    exact decodeInt64_number n ht
  | bool b =>
    cases b with
    | true | false => rw [Value.text]; exact decodeInt64_none (by decide) (by decide) _
  | null | emptyArray w
  | array w es | emptyObject w
  | object w ms => rw [Value.text]; exact decodeInt64_none (by decide) (by decide) _

theorem decodeBool_none (ht : c ≠ 't') (hf : c ≠ 'f') (t : List Char) :
    decodeBool (c :: t) = none := by
  simp [decodeBool, ht.symm, hf.symm]

theorem decodeBool_value (v : Value) (t : List Char) : decodeBool (v.text ++ t) = asBool v := by
  cases v with
  | string s =>
    exact decodeBool_none (by decide) (by decide) _
  | number n =>
    obtain ⟨c, u, htext, hc⟩ := Number.text_cons n
    rw [Value.text, htext]
    refine decodeBool_none ?_ ?_ _
    all_goals
      rintro rfl
      exact absurd hc (by decide)
  | bool b =>
    cases b with
    | true | false => rw [Value.text]; rfl
  | null | emptyArray w
  | array w es | emptyObject w
  | object w ms => rw [Value.text]; exact decodeBool_none (by decide) (by decide) _

/-! ### Arrays of strings -/

theorem readStrings_round (v : Value) (u : List Char) (fuel : Nat) :
    readStrings (fuel + 1) (v.text ++ u) = (asString v).bind fun value =>
        match skipWhitespace u with
        | ',' :: t => (readStrings fuel (skipWhitespace t)).bind fun values =>
            some (value :: values)
        | ']' :: _ => some [value]
        | _ => none := by
  obtain ⟨c, cs, htext, -⟩ := Value.text_cons v
  have hunfold : readStrings (fuel + 1) (v.text ++ u) = (parseString (v.text ++ u)).bind fun r =>
        match skipWhitespace r.2 with
        | ',' :: t => (readStrings fuel (skipWhitespace t)).bind fun values =>
            some (r.1 :: values)
        | ']' :: _ => some [r.1]
        | _ => none := by
    rw [htext, readStrings]
    · rfl
    · exact nofun
  have hvalue := parseString_value v u
  rw [hunfold]
  cases v with
  | string s =>
    rw [Value.text, parseString_text]
    rfl
  | _ =>
    rw [map_eq_none_iff.mp hvalue]
    rfl

theorem readStrings_text (es : Elements) {fuel : Nat} (hfuel : es.text.length < fuel)
    (t : List Char) :
    readStrings fuel (es.text ++ ']' :: t) = es.toList.mapM asString := by
  obtain ⟨fuel, rfl⟩ : ∃ n, fuel = n + 1 := ⟨fuel - 1, by omega⟩
  cases es with
  | last v w =>
    rw [Elements.text, append_assoc, readStrings_round, skipWhitespace_white]
    rfl
  | more v w w' rest =>
    simp only [Elements.text, length_append, length_cons] at hfuel
    have ih := readStrings_text rest (show rest.text.length < fuel by omega) t
    rw [← skipWhitespace_elements w' rest] at ih
    simp only [Elements.text, append_assoc, cons_append]
    rw [readStrings_round, skipWhitespace_white, Elements.toList, mapM_cons, ← ih]
    rfl

theorem decodeStringArray_none (hc : c ≠ '[') (t : List Char) :
    decodeStringArray (c :: t) = none := by
  unfold decodeStringArray
  split
  next h =>
    exact absurd (cons.inj h).1 hc
  · rfl

theorem decodeStringArray_value (v : Value) (t : List Char) :
    decodeStringArray (v.text ++ t) = asStringArray v := by
  cases v with
  | emptyArray w =>
    rw [Value.text, cons_append, append_assoc, decodeStringArray, skipWhitespace_white]
    rfl
  | array w es =>
    obtain ⟨c, u, htext, hc⟩ := Elements.text_cons es
    obtain ⟨hblank, hbracket, -⟩ := isValueStart_facts hc
    have hloop := readStrings_text es
      (show es.text.length < (es.text ++ ']' :: t).length + 1 by rw [length_append]; omega) t
    rw [Value.text, cons_append, append_assoc, append_assoc, decodeStringArray,
      skipWhitespace_white]
    rw [htext, cons_append] at hloop ⊢
    rw [skipWhitespace_cons hblank]
    split
    next h =>
      exact absurd (cons.inj h).1 hbracket
    · exact hloop
  | string s =>
    exact decodeStringArray_none (by decide) _
  | number n =>
    obtain ⟨c, u, htext, hc⟩ := Number.text_cons n
    rw [Value.text, htext]
    refine decodeStringArray_none ?_ _
    rintro rfl
    exact absurd hc (by decide)
  | bool b =>
    cases b with
    | true | false => rw [Value.text]; exact decodeStringArray_none (by decide) _
  | null | emptyObject w
  | object w ms => rw [Value.text]; exact decodeStringArray_none (by decide) _

/-- The readers answer with the decoded value of the only member of the name; `Missing` if there is
none, `Invalid` for a second one or another form. -/
theorem json_claims_read (o : ObjectText) (h : o.levels ≤ 64) (key : List Char) :
    readJsonString o.text key = claim asString o key ∧
    readJsonInt64 o.text key = claim asInt64 o key ∧
    readJsonBool o.text key = claim asBool o key ∧
    readJsonStringArray o.text key = claim asStringArray o key :=
  ⟨readMember_eq_claim (fun v t _ => parseString_value v t) o h key,
    readMember_eq_claim (fun v _ ht => decodeInt64_value v ht) o h key,
    readMember_eq_claim (fun v t _ => decodeBool_value v t) o h key,
    readMember_eq_claim (fun v t _ => decodeStringArray_value v t) o h key⟩

/-- One member has its name as an escape, one holds a member of the same name. -/
def escapedName : ObjectText where
  before := ⟨[], nofun⟩
  opening := ⟨[' '], by decide⟩
  members := some
    (.more [.unicode ⟨'0', '0', '7', '8', by decide⟩ (by decide)] ⟨[], nofun⟩ ⟨[' '], by decide⟩
      (.number ⟨true, ⟨['7'], nofun, by decide⟩, by decide, none, none⟩) ⟨[], nofun⟩ ⟨[], nofun⟩
      (.last [.plain 'y' (by decide) (by decide) (by decide)] ⟨[], nofun⟩ ⟨[], nofun⟩
        (.object ⟨[], nofun⟩
          (.last [.plain 'x' (by decide) (by decide) (by decide)] ⟨[], nofun⟩ ⟨[], nofun⟩ .null
            ⟨[], nofun⟩))
        ⟨[], nofun⟩))
  after := ⟨['\n'], by decide⟩

theorem json_claims_read_escapedName :
    escapedName.text = "\x7b \"\\u0078\": -7,\"y\":\x7b\"x\":null\x7d\x7d\n".toList ∧
    readJsonInt64 escapedName.text ['x'] = .Valid (-7) ∧
    readJsonString escapedName.text ['x'] = .Invalid ∧
    readJsonBool escapedName.text ['z'] = .Missing := by
  have h (key : List Char) := json_claims_read escapedName (by decide +kernel) key
  refine ⟨by decide +kernel, ?_, ?_, ?_⟩
  · rw [(h ['x']).2.1]
    decide +kernel
  · rw [(h ['x']).1]
    decide +kernel
  · rw [(h ['z']).2.2.1]
    decide +kernel

end Zepto.Auth
