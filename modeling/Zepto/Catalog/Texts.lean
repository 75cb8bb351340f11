import Zepto.Catalog.WellFormed

/-!
# The scans and the texts of the writer

The scans of the reader pass over every text the writer makes (`Nested`, `Scalar`), so each member
of an object is found (`jsonFindMemberValue_object`), each value is read back and so is each object
of an array (`readArray_array`).
-/

namespace Zepto.Catalog

open List Zepto.Lib Option

/-! ## String literals -/

inductive Raw : List Char → Prop
  | nil : Raw []
  | plain {c : Char} {t : List Char} : c ≠ '"' → c ≠ '\\' → Raw t → Raw (c :: t)
  | escape (c : Char) {t : List Char} : Raw t → Raw ('\\' :: c :: t)

theorem raw_of_plain {t : List Char} (h : ∀ c ∈ t, c ≠ '"' ∧ c ≠ '\\') : Raw t := by
  induction t with
  | nil => exact .nil
  | cons c t ih =>
    rw [forall_mem_cons] at h
    exact .plain h.1.1 h.1.2 (ih h.2)

theorem raw_escape (s : List Char) : Raw (s.flatMap escape) := by
  induction s with
  | nil => exact .nil
  | cons c s ih =>
    rw [flatMap_cons]
    unfold escape
    split_ifs with h1 h2 h3 h4 h5
    · exact .escape _ ih
    · exact .escape _ ih
    · exact .escape _ ih
    · exact .escape _ ih
    · exact .escape _ ih
    · exact .plain h1 h2 ih

theorem matchFrom_raw {opening closing : Char} {depth : Nat} {raw : List Char} (h : Raw raw)
    (t : List Char) :
    matchFrom opening closing depth .inString (raw ++ t) =
      (matchFrom opening closing depth .inString t).map (· + raw.length) := by
  induction h with
  | nil => simp
  | plain h1 h2 _ ih =>
    rw [cons_append, matchFrom, Scan.next, if_neg h2, if_neg h1, ih, Option.map_map]
    rfl
  | escape c _ ih =>
    rw [cons_append, cons_append, matchFrom, Scan.next, if_pos rfl, matchFrom, ih,
      Option.map_map, Option.map_map]
    rfl

theorem findMember_raw {key : List Char} {objects arrays : Int} {raw : List Char} (h : Raw raw)
    (acc t : List Char) :
    findMember key objects arrays .inString acc (raw ++ t) =
      findMember key objects arrays .inString (acc ++ raw) t := by
  induction h generalizing acc with
  | nil => simp
  | plain h1 h2 _ ih =>
    rw [cons_append, findMember, if_neg h2, if_neg h1, ih, append_assoc]
    rfl
  | escape c _ ih =>
    rw [cons_append, cons_append, findMember, if_pos rfl, findMember, ih,
      append_assoc, append_assoc]
    rfl

theorem readString_escapeByte {c : Char} (h : c.toNat < 0x20 → c ∈ ['\n', '\r', '\t'])
    (t : List Char) :
    readString false (escape c ++ t) = (readString false t).map fun r => (c :: r.1, r.2) := by
  unfold escape
  split_ifs with h1 h2 h3 h4 h5
  · subst h1; rfl
  · subst h2; rfl
  · subst h3; rfl
  · subst h4; rfl
  · subst h5; rfl
  have hc : ¬c.toNat < 0x20 := fun hlt => by
    have := h hlt
    simp only [mem_cons] at this
    tauto
  rw [singleton_append, readString, if_neg h1, if_neg h2, if_neg hc]

/-- A string is read back if its control bytes are those the writer escapes. -/
theorem readString_escape {s : List Char} (h : ∀ c ∈ s, c.toNat < 0x20 → c ∈ ['\n', '\r', '\t'])
    (t : List Char) : readString false (s.flatMap escape ++ '"' :: t) = some (s, t) := by
  induction s with
  | nil => simp [readString]
  | cons c s ih =>
    rw [forall_mem_cons] at h
    rw [flatMap_cons, append_assoc, readString_escapeByte h.1, ih h.2]
    rfl

/-! ## Matching delimiters -/

def Skips (opening closing : Char) (u : List Char) : Prop :=
  ∀ depth t, 1 ≤ depth → matchFrom opening closing depth .outside (u ++ t) =
    (matchFrom opening closing depth .outside t).map (· + u.length)

section

variable {opening closing : Char} {u v : List Char}

theorem Skips.append (hu : Skips opening closing u) (hv : Skips opening closing v) :
    Skips opening closing (u ++ v) := by
  intro depth t hd
  rw [append_assoc, hu depth _ hd, hv depth t hd, Option.map_map, length_append]
  congr 1
  funext n
  simp only [Function.comp_apply]
  omega

theorem skips_plain (h : ∀ c ∈ u, c ≠ '"' ∧ c ≠ opening ∧ c ≠ closing) :
    Skips opening closing u := by
  intro depth t hd
  induction u with
  | nil => simp
  | cons c u ih =>
    rw [forall_mem_cons] at h
    rw [cons_append, matchFrom, if_neg h.1.1, if_neg h.1.2.1, if_neg h.1.2.2, ih h.2,
      Option.map_map]
    rfl

theorem skips_literal {raw : List Char} (h : Raw raw) :
    Skips opening closing ('"' :: raw ++ ['"']) := by
  intro depth t hd
  rw [cons_append, cons_append, matchFrom, if_pos rfl, append_assoc,
    matchFrom_raw h, singleton_append, matchFrom, Scan.next,
    Option.map_map, Option.map_map]
  congr 1
  funext n
  simp only [Function.comp_apply, length_cons, length_append, length_nil]
  omega

theorem Skips.enclose (ho : opening ≠ '"') (hc : closing ≠ '"') (hne : closing ≠ opening)
    (h : Skips opening closing u) : Skips opening closing (opening :: u ++ [closing]) := by
  intro depth t hd
  rw [cons_append, cons_append, matchFrom, if_neg ho, if_pos rfl, append_assoc,
    h _ _ (by omega), singleton_append, matchFrom, if_neg hc, if_neg hne, if_pos rfl,
    if_neg (by omega), Option.map_map, Option.map_map]
  congr 1
  funext n
  simp only [Function.comp_apply, length_cons, length_append, length_nil]
  omega

/-- The delimiter that closes the first one is found. -/
theorem matchDelimiter_enclose (hc : closing ≠ '"') (hne : closing ≠ opening)
    (h : Skips opening closing u) (t : List Char) :
    matchDelimiter opening closing (opening :: u ++ [closing] ++ t) = some (u.length + 1) := by
  rw [cons_append, cons_append, matchDelimiter, if_pos rfl, append_assoc,
    h _ _ (by omega), singleton_append, matchFrom, if_neg hc, if_neg hne, if_pos rfl,
    if_pos rfl]
  simp

end

section

variable {u v : List Char} {c : Char} {raw t : List Char} {key : String}

structure Nested (u : List Char) : Prop where
  braces : Skips '{' '}' u
  brackets : Skips '[' ']' u

theorem Nested.append (hu : Nested u) (hv : Nested v) : Nested (u ++ v) :=
  ⟨hu.braces.append hv.braces, hu.brackets.append hv.brackets⟩

def Plain (c : Char) : Prop := c ∉ ['"', '{', '}', '[', ']']

instance (c : Char) : Decidable (Plain c) := inferInstanceAs (Decidable ¬_)

theorem Plain.ne {d : Char} (h : Plain c) (hd : d ∈ ['"', '{', '}', '[', ']']) : c ≠ d :=
  fun heq => h (heq ▸ hd)

theorem nested_plain (h : ∀ c ∈ u, Plain c) : Nested u :=
  ⟨skips_plain fun c hc => ⟨(h c hc).ne (by decide), (h c hc).ne (by decide),
      (h c hc).ne (by decide)⟩,
    skips_plain fun c hc => ⟨(h c hc).ne (by decide), (h c hc).ne (by decide),
      (h c hc).ne (by decide)⟩⟩

theorem nested_literal (h : Raw raw) : Nested ('"' :: raw ++ ['"']) :=
  ⟨skips_literal h, skips_literal h⟩

theorem nested_braces (h : Nested u) : Nested ('{' :: u ++ ['}']) :=
  ⟨h.braces.enclose (by decide) (by decide) (by decide),
    ((skips_plain (u := ['{']) (by decide)).append h.brackets).append (skips_plain (by decide))⟩

theorem nested_brackets (h : Nested u) : Nested ('[' :: u ++ [']']) :=
  ⟨((skips_plain (u := ['[']) (by decide)).append h.braces).append (skips_plain (by decide)),
    h.brackets.enclose (by decide) (by decide) (by decide)⟩

theorem nested_commas {ts : List (List Char)} (h : ∀ t ∈ ts, Nested t) : Nested (commas ts) := by
  induction ts with
  | nil => exact nested_plain nofun
  | cons t ts ih =>
    rw [forall_mem_cons] at h
    cases ts with
    | nil => exact h.1
    | cons t' ts =>
      exact h.1.append ((nested_plain (u := [',']) (by decide)).append (ih h.2))

theorem isDigit_plain (h : c.isDigit) : Plain c := by
  intro hc
  simp only [mem_cons, not_mem_nil, or_false] at hc
  rcases hc with rfl | rfl | rfl | rfl | rfl <;> exact absurd h (by decide)

theorem decimal_plain {n : Nat} : ∀ c ∈ decimal n, Plain c :=
  fun _ hc => isDigit_plain (isDigit_decimal hc)

theorem decimalInt_plain {z : Int} : ∀ c ∈ decimalInt z, Plain c := by
  unfold decimalInt
  split
  · rw [forall_mem_cons]
    exact ⟨by decide, decimal_plain⟩
  · exact decimal_plain

/-! ## Finding members -/

/-- The search for a member passes over the value and the comma after it. -/
def Scalar (v : List Char) : Prop :=
  ∀ key t, findMember key 1 0 .outside [] (v ++ ',' :: t) = findMember key 1 0 .outside [] t

theorem findMember_plain {key : List Char} {objects arrays : Int} (h : ∀ c ∈ u, Plain c) :
    findMember key objects arrays .outside [] (u ++ t) =
      findMember key objects arrays .outside [] t := by
  induction u with
  | nil => rfl
  | cons c u ih =>
    rw [forall_mem_cons] at h
    rw [cons_append, findMember, if_neg (h.1.ne (by decide)), if_neg (h.1.ne (by decide)),
      if_neg (h.1.ne (by decide)), if_neg (h.1.ne (by decide)), if_neg (h.1.ne (by decide)),
      ih h.2]

theorem scalar_plain (h : ∀ c ∈ v, Plain c) : Scalar v := by
  intro key t
  rw [findMember_plain h, ← singleton_append, findMember_plain (by decide)]

/-- A literal is passed over unless it is the key and a colon follows. -/
theorem findMember_literal {key : List Char} (h : Raw raw)
    (hskip : raw ≠ key ∨ ∀ v, skipWs t ≠ ':' :: v) :
    findMember key 1 0 .outside [] ('"' :: (raw ++ '"' :: t)) =
      findMember key 1 0 .outside [] t := by
  rw [findMember, if_neg (by decide), if_neg (by decide), if_neg (by decide),
    if_neg (by decide), if_pos rfl, findMember_raw h, findMember,
    if_neg (by decide), if_pos rfl]
  rcases hskip with hne | hcolon
  · rw [if_neg fun h => hne h.2.2]
  split
  · split
    next v hv =>
      exact absurd hv (hcolon v)
    · rfl
  · rfl

theorem scalar_jsonStr (s : List Char) : Scalar (jsonStr s) := by
  intro key t
  have hcomma : ∀ v, skipWs (',' :: t) ≠ ':' :: v := by
    exact nofun
  unfold jsonStr
  rw [append_assoc, singleton_append, cons_append, findMember_literal (raw_escape s) (.inr hcomma),
    ← singleton_append, findMember_plain (by decide)]

structure Simple (m : String × List Char) : Prop where
  key : Raw m.1.toList
  value : Scalar m.2

theorem findMember_simple {key : String} {m : String × List Char} (h : Simple m)
    (hne : m.1 ≠ key) (t : List Char) :
    findMember key.toList 1 0 .outside [] (member m ++ ',' :: t) =
      findMember key.toList 1 0 .outside [] t := by
  have hkey : m.1.toList ≠ key.toList := fun heq => hne (String.toList_injective heq)
  unfold member
  rw [append_assoc, cons_append, cons_append, cons_append,
    findMember_literal h.key (.inl hkey), ← singleton_append,
    findMember_plain (by decide), h.value]

def Starts (v : List Char) : Prop := ∀ t, skipWs (v ++ t) = v ++ t

theorem findMember_key (hkey : Raw key.toList) (hv : Starts v) (t : List Char) :
    findMember key.toList 1 0 .outside [] (member (key, v) ++ t) = some (v ++ t) := by
  unfold member
  have hcolon : skipWs (':' :: (v ++ t)) = ':' :: (v ++ t) := by
    rw [skipWs, dropWhile_cons_of_neg (by decide)]
  rw [append_assoc, cons_append, cons_append, cons_append, findMember,
    if_neg (by decide), if_neg (by decide), if_neg (by decide), if_neg (by decide), if_pos rfl,
    findMember_raw hkey, findMember, if_neg (by decide), if_pos rfl,
    if_pos ⟨rfl, rfl, rfl⟩, hcolon]
  simp [hv t]

def after : List (String × List Char) → List Char
  | [] => ['}']
  | ms => ',' :: commas (ms.map member) ++ ['}']

theorem commas_cons_append (t : List Char) (ts : List (List Char)) (u : List Char) :
    commas (t :: ts) ++ u = t ++ (match ts with | [] => u | _ => ',' :: (commas ts ++ u)) := by
  cases ts <;> simp [commas]

/-- The value of a member of an object, with the text after it. -/
theorem jsonFindMemberValue_object (before : List (String × List Char))
    {post : List (String × List Char)} (hbefore : ∀ m ∈ before, Simple m)
    (hnew : key ∉ before.map Prod.fst) (hkey : Raw key.toList) (hv : Starts v) :
    jsonFindMemberValue key (object (before ++ (key, v) :: post)) = some (v ++ after post) := by
  have hopen : ∀ t, jsonFindMemberValue key ('{' :: t) =
      findMember key.toList 1 0 .outside [] t := by
    intro t
    rfl
  rw [object, cons_append, hopen]
  induction before with
  | nil =>
    rw [nil_append, map_cons, commas_cons_append, findMember_key hkey hv]
    cases post <;> rfl
  | cons m before ih =>
    rw [forall_mem_cons] at hbefore
    rw [map_cons, mem_cons, not_or] at hnew
    have hsep : ∀ u, commas ((m :: before ++ (key, v) :: post).map member) ++ u =
        member m ++ ',' :: (commas ((before ++ (key, v) :: post).map member) ++ u) := by
      intro u
      rw [cons_append, map_cons, commas_cons_append]
      cases before <;> rfl
    rw [hsep, findMember_simple hbefore.1 (symm hnew.1)]
    exact ih hbefore.2 hnew.2

/-! ## Reading values -/

theorem after_cons (ms : List (String × List Char)) :
    ∃ c t, after ms = c :: t ∧ (c = ',' ∨ c = '}') := by
  cases ms with
  | nil => exact ⟨_, _, rfl, .inr rfl⟩
  | cons m ms => exact ⟨_, _, rfl, .inl rfl⟩

theorem endsAt_after {stops : List Char} (hcomma : ',' ∈ stops) (hbrace : '}' ∈ stops)
    (ms : List (String × List Char)) : endsAt stops (after ms) := by
  obtain ⟨c, t, heq, hc⟩ := after_cons ms
  rw [heq, endsAt, skipWs]
  rcases hc with rfl | rfl
  · rw [dropWhile_cons_of_neg (by decide)]
    exact decide_eq_true hcomma
  · rw [dropWhile_cons_of_neg (by decide)]
    exact decide_eq_true hbrace

theorem starts_cons (h : isWs c = false) (v : List Char) : Starts (c :: v) := by
  intro t
  rw [cons_append, skipWs, dropWhile_cons_of_neg (by rw [h]; exact nofun)]

theorem starts_jsonStr (s : List Char) : Starts (jsonStr s) := starts_cons (by decide) _

theorem isWs_of_isDigit (h : c.isDigit) : isWs c = false := by
  simp only [isWs, Bool.or_eq_false_iff, decide_eq_false_iff_not]
  refine ⟨⟨⟨?_, ?_⟩, ?_⟩, ?_⟩ <;> rintro rfl <;> exact absurd h (by decide)

theorem decimal_cons (n : Nat) : ∃ c t, decimal n = c :: t ∧ c.isDigit := by
  obtain ⟨c, t, heq⟩ := exists_cons_of_ne_nil (decimal_ne_nil n)
  exact ⟨c, t, heq, isDigit_decimal (heq ▸ mem_cons_self)⟩

theorem readDigits_append {limit v : Nat} {ds : List Char} (hds : ∀ d ∈ ds, d.isDigit)
    (hc : c.isDigit = false) (hle : ds.foldl (fun n c => n * 10 + (c.toNat - 48)) v ≤ limit) :
    readDigits limit v (ds ++ c :: t) =
      some (ds.foldl (fun n c => n * 10 + (c.toNat - 48)) v, c :: t) := by
  induction ds generalizing v with
  | nil => rw [nil_append, readDigits, if_neg (by rw [hc]; exact Bool.false_ne_true)]; rfl
  | cons d ds ih =>
    rw [forall_mem_cons] at hds
    rw [foldl_cons] at hle ⊢
    have hv : v * 10 + (d.toNat - 48) ≤ limit := (le_foldl_digits ds _).trans hle
    rw [cons_append, readDigits, if_pos hds.1, if_neg (by omega), ih hds.2 hle]

theorem readSign_of_ne (h : c ≠ '-') (t : List Char) : readSign (c :: t) = (false, c :: t) := by
  unfold readSign
  split
  next heq =>
    exact absurd (cons.inj heq).1 h
  · rfl

end

section

variable (before : List (String × List Char)) {key : String} {post : List (String × List Char)}

variable (hbefore : ∀ m ∈ before, Simple m) (hnew : key ∉ before.map Prod.fst)
  (hkey : Raw key.toList)

include hbefore hnew hkey

theorem jsonExtractString_object {s : List Char} (hs : Readable s) :
    jsonExtractString key (object (before ++ (key, jsonStr s) :: post)) = some s := by
  unfold jsonExtractString
  rw [jsonFindMemberValue_object before hbefore hnew hkey (starts_jsonStr s), jsonStr, append_assoc,
    singleton_append, cons_append]
  simp only [readString_escape hs.2]
  rw [if_pos (endsAt_after (by decide) (by decide) post)]

/-- A number that the type can hold is read back. -/
theorem jsonFindIntGen_object {unsigned : Bool} {limit n : Nat} (hn : n ≤ limit) :
    jsonFindIntGen unsigned limit key (object (before ++ (key, decimal n) :: post)) = some ↑n := by
  obtain ⟨c, t, heq, hc⟩ := after_cons post
  obtain ⟨d, ds, hdecimal, hd⟩ := decimal_cons n
  have hminus : d ≠ '-' := by
    rintro rfl
    exact absurd hd (by decide)
  have hcd : c.isDigit = false := by rcases hc with rfl | rfl <;> decide
  have hdigits := readDigits_append (t := t) (fun _ h => isDigit_decimal h) hcd
    ((numberOf_decimal n).symm ▸ hn : numberOf (decimal n) ≤ limit)
  change _ = some (numberOf (decimal n), c :: t) at hdigits
  rw [numberOf_decimal, ← heq, hdecimal] at hdigits
  unfold jsonFindIntGen
  rw [jsonFindMemberValue_object before hbefore hnew hkey
    (by rw [hdecimal]; exact starts_cons (isWs_of_isDigit hd) _), hdecimal]
  dsimp only
  rw [cons_append, readSign_of_ne hminus, ← cons_append]
  rw [if_neg (by simp [hd]), if_neg (by simp), if_neg (by simp), hdigits]
  dsimp only
  rw [if_pos (endsAt_after (by decide) (by decide) post), if_neg (by simp)]

theorem jsonFindInt_object {n : Nat} (hn : n < 2 ^ 32) :
    jsonFindInt key (object (before ++ (key, decimal n) :: post)) = some n := by
  rw [jsonFindInt, jsonFindIntGen_object before hbefore hnew hkey (by omega)]
  rfl

theorem jsonFindInt64_object {z : Int} (h0 : 0 ≤ z) (hz : z < 2 ^ 63) :
    jsonFindInt64 key (object (before ++ (key, decimalInt z) :: post)) = some z := by
  have hdecimal : decimalInt z = decimal z.natAbs := if_neg (by omega)
  rw [jsonFindInt64, hdecimal, jsonFindIntGen_object before hbefore hnew hkey (by omega)]
  congr 1
  omega

end

/-! ## Reading arrays -/

section

variable {σ : Type} {objs : List (List Char)}

theorem skipWsTo_of_not_ws {c : Char} (h : isWs c = false) (n : Nat) (t : List Char) :
    skipWsTo n (c :: t) = (n, c :: t) := by
  cases n with
  | zero => rfl
  | succ n => rw [skipWsTo, if_neg (by rw [h]; exact Bool.false_ne_true)]

/-- One object of an array whose end is `m` bytes after it. -/
theorem readObjects_object (item : σ → List Char → Option σ) {u : List Char} (hu : Nested u)
    (rounds m : Nat) (t : List Char) (acc : σ) :
    readObjects item (rounds + 1) (('{' :: u ++ ['}']).length + m) ('{' :: u ++ ['}'] ++ t) acc =
      (item acc ('{' :: u ++ ['}'])).bind fun acc => let rest := skipWsTo m t
        let next := skipWsTo (rest.1 - 1) rest.2.tail
        if rest.1 = 0 then some acc
        else if rest.2.head? ≠ some ',' then none
        else if next.1 = 0 then none
        else readObjects item rounds next.1 next.2 acc := by
  have hmatch : jsonMatchBrace ('{' :: u ++ ['}'] ++ t) = some (u.length + 1) :=
    matchDelimiter_enclose (by decide) (by decide) hu.braces t
  have hlen : u.length + 1 + 1 = ('{' :: u ++ ['}']).length := by simp
  have hskip : skipWsTo (('{' :: u ++ ['}']).length + m) ('{' :: u ++ ['}'] ++ t) =
      (('{' :: u ++ ['}']).length + m, '{' :: u ++ ['}'] ++ t) :=
    skipWsTo_of_not_ws (by decide) _ _
  rw [readObjects, hskip]
  dsimp only
  rw [if_neg (by simp), hmatch]
  dsimp only
  rw [if_neg (by omega), hlen, take_left, drop_left, Nat.add_sub_cancel_left]
  cases item acc ('{' :: u ++ ['}']) <;> rfl

/-- The objects of an array are read one after the other. -/
theorem readObjects_commas (item : σ → List Char → Option σ)
    (hobjs : ∀ o ∈ objs, ∃ u, o = '{' :: u ++ ['}'] ∧ Nested u) (t : List Char) (acc : σ)
    {rounds : Nat} (hrounds : (commas objs).length ≤ rounds) :
    readObjects item rounds (commas objs).length (commas objs ++ t) acc = objs.foldlM item acc := by
  induction objs generalizing acc rounds with
  | nil => exact readObjects_end ..
  | cons o objs ih =>
    rw [forall_mem_cons] at hobjs
    obtain ⟨⟨u, rfl, hu⟩, hobjs⟩ := hobjs
    obtain ⟨rounds, rfl⟩ : ∃ r, rounds = r + 1 :=
      ⟨rounds - 1, by cases objs <;> simp [commas] at hrounds <;> omega⟩
    cases objs with
    | nil => exact readObjects_object item hu rounds 0 t acc
    | cons o' objs =>
      have hlen : (commas (('{' :: u ++ ['}']) :: o' :: objs)).length =
          ('{' :: u ++ ['}']).length + ((commas (o' :: objs)).length + 1) := by
        simp only [commas, length_append, length_cons]
      have htext : commas (('{' :: u ++ ['}']) :: o' :: objs) ++ t =
          '{' :: u ++ ['}'] ++ ',' :: (commas (o' :: objs) ++ t) := by
        rw [commas_cons_append]
      rw [hlen, htext, readObjects_object item hu]
      congr 1
      funext acc
      obtain ⟨u', rfl, -⟩ := hobjs o' mem_cons_self
      have hnext : ∀ n, skipWsTo n (commas (('{' :: u' ++ ['}']) :: objs) ++ t) =
          (n, commas (('{' :: u' ++ ['}']) :: objs) ++ t) := by
        intro n
        rw [commas_cons_append]
        exact skipWsTo_of_not_ws (by decide) _ _
      have hpos : (commas (('{' :: u' ++ ['}']) :: objs)).length ≠ 0 := by
        cases objs <;> simp [commas]
      rw [skipWsTo_of_not_ws (by decide)]
      rw [if_neg (by simp), Nat.add_sub_cancel, tail_cons, hnext, if_neg hpos]
      exact ih hobjs acc (by omega)

theorem nested_member {m : String × List Char} (hkey : Raw m.1.toList) (hv : Nested m.2) :
    Nested (member m) := by
  have h := (nested_literal hkey).append ((nested_plain (u := [':']) (by decide)).append hv)
  rwa [append_assoc, singleton_append, singleton_append] at h

theorem nested_members {ms : List (String × List Char)}
    (h : ∀ m ∈ ms, Raw m.1.toList ∧ Nested m.2) : Nested (commas (ms.map member)) := by
  refine nested_commas fun t ht => ?_
  obtain ⟨m, hm, rfl⟩ := mem_map.mp ht
  exact nested_member (h m hm).1 (h m hm).2

/-- An array of objects is found and read. -/
theorem readArray_array (item : σ → List Char → Option σ)
    (hobjs : ∀ o ∈ objs, ∃ u, o = '{' :: u ++ ['}'] ∧ Nested u) (t : List Char) (acc : σ) :
    readArray item (array objs ++ t) ((commas objs).length + 1) acc = objs.foldlM item acc := by
  rw [readArray, array, cons_append, cons_append, append_assoc]
  exact readObjects_commas item hobjs _ acc le_rfl

section

variable (hobjs : ∀ o ∈ objs, ∃ u, o = '{' :: u ++ ['}'] ∧ Nested u)

include hobjs

theorem nested_objects : Nested (commas objs) := by
  refine nested_commas fun o ho => ?_
  obtain ⟨u, rfl, hu⟩ := hobjs o ho
  exact nested_braces hu

theorem jsonMatchBracket_array
    (t : List Char) : jsonMatchBracket (array objs ++ t) = some ((commas objs).length + 1) :=
  matchDelimiter_enclose (by decide) (by decide) (nested_objects hobjs).brackets t

end

end

end Zepto.Catalog
