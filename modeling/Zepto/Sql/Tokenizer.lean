import Mathlib
import Zepto.Lib.Stream

/-!
# The tokenizer

`tokenize` cuts a text into tokens. A position in the text is the text from there on; `lex` reads
the token or the comment at a position that is not blank. The only context it has is the type of
the token before, which tells a negative literal from a subtraction.
-/

namespace Zepto.Sql

open Zepto.Lib List

inductive TokenType where
  | SELECT | FROM | WHERE | JOIN | ASOF | ON | AND | OR | NOT
  | GROUP | BY | ORDER | LIMIT | OFFSET | BETWEEN | HAVING | AS | DISTINCT
  | INNER | LEFT | RIGHT | OUTER | CROSS
  | ASC | DESC | NULLS | FIRST | LAST
  | SUM | AVG | COUNT | MIN | MAX | VWAP | STDDEV | VARIANCE | MEDIAN | PERCENTILE
  | OVER | PARTITION | ROWS | RANGE | PRECEDING | FOLLOWING | UNBOUNDED | CURRENT | ROW
  | RANK | DENSE_RANK | ROW_NUMBER | LAG | LEAD
  | XBAR | EMA | DELTA | RATIO_KW | WINDOW
  | DATE_TRUNC | NOW | EPOCH_S | EPOCH_MS | SUBSTR | LIKE
  | FULL | PLUS_JOIN | AJ0
  | EXPLAIN | INTERVAL | SAMPLE | WITH
  | INSERT | INTO | VALUES | UPDATE | SET | DELETE_KW | MATERIALIZED | VIEW
  | UNION | ALL | INTERSECT | EXCEPT
  | IN | IS | NULL_KW
  | GT | LT | GE | LE | EQ | NE
  | STAR | COMMA | DOT | LPAREN | RPAREN
  | PLUS | MINUS | SLASH
  | NUMBER | STRING | IDENT
  | CASE | WHEN | THEN | ELSE | CASE_END
  | END
  deriving DecidableEq

structure Token where
  type : TokenType
  value : List Char
  deriving DecidableEq

/-! ## Keywords -/

/-- The words `keyword_type` knows, in upper case. -/
def keywords : List (String × TokenType) :=
  [("SELECT", .SELECT), ("FROM", .FROM), ("WHERE", .WHERE), ("JOIN", .JOIN), ("ASOF", .ASOF),
   ("ON", .ON), ("AND", .AND), ("OR", .OR), ("NOT", .NOT), ("IN", .IN), ("IS", .IS),
   ("NULL", .NULL_KW), ("GROUP", .GROUP), ("BY", .BY), ("ORDER", .ORDER), ("LIMIT", .LIMIT),
   ("OFFSET", .OFFSET), ("BETWEEN", .BETWEEN), ("HAVING", .HAVING), ("AS", .AS),
   ("DISTINCT", .DISTINCT), ("INNER", .INNER), ("LEFT", .LEFT), ("RIGHT", .RIGHT),
   ("OUTER", .OUTER), ("CROSS", .CROSS), ("ASC", .ASC), ("DESC", .DESC), ("NULLS", .NULLS),
   ("FIRST", .FIRST), ("LAST", .LAST), ("SUM", .SUM), ("AVG", .AVG), ("COUNT", .COUNT),
   ("MIN", .MIN), ("MAX", .MAX), ("VWAP", .VWAP), ("STDDEV", .STDDEV), ("VARIANCE", .VARIANCE),
   ("MEDIAN", .MEDIAN), ("PERCENTILE", .PERCENTILE), ("PERCENTILE_CONT", .PERCENTILE),
   ("OVER", .OVER), ("PARTITION", .PARTITION), ("ROWS", .ROWS), ("RANGE", .RANGE),
   ("PRECEDING", .PRECEDING), ("FOLLOWING", .FOLLOWING), ("UNBOUNDED", .UNBOUNDED),
   ("CURRENT", .CURRENT), ("ROW", .ROW), ("RANK", .RANK), ("DENSE_RANK", .DENSE_RANK),
   ("ROW_NUMBER", .ROW_NUMBER), ("LAG", .LAG), ("LEAD", .LEAD), ("XBAR", .XBAR), ("EMA", .EMA),
   ("DELTA", .DELTA), ("RATIO", .RATIO_KW), ("WINDOW", .WINDOW), ("CASE", .CASE),
   ("WHEN", .WHEN), ("THEN", .THEN), ("ELSE", .ELSE), ("END", .CASE_END),
   ("DATE_TRUNC", .DATE_TRUNC), ("NOW", .NOW), ("EPOCH_S", .EPOCH_S), ("EPOCH_MS", .EPOCH_MS),
   ("LIKE", .LIKE), ("SUBSTR", .SUBSTR), ("FULL", .FULL), ("PLUS", .PLUS_JOIN), ("AJ0", .AJ0),
   ("EXPLAIN", .EXPLAIN), ("INTERVAL", .INTERVAL), ("SAMPLE", .SAMPLE), ("WITH", .WITH),
   ("INSERT", .INSERT), ("INTO", .INTO), ("VALUES", .VALUES), ("UPDATE", .UPDATE), ("SET", .SET),
   ("DELETE", .DELETE_KW), ("MATERIALIZED", .MATERIALIZED), ("VIEW", .VIEW), ("UNION", .UNION),
   ("ALL", .ALL), ("INTERSECT", .INTERSECT), ("EXCEPT", .EXCEPT)]

/-- `std::toupper` of every character. -/
def toUpperStr (s : List Char) : List Char := s.map .toUpper

def keywordType (upper : List Char) : TokenType :=
  ((keywords.find? fun k => k.1.toList = upper).map Prod.snd).getD .IDENT

def isWordStart (c : Char) : Bool := c.isAlpha || c = '_'

def isWordRest (c : Char) : Bool := c.isAlphanum || c = '_'

def isNumberRest (c : Char) : Bool := c.isDigit || c = '.'

def backtick : Char := .ofNat 96

/-! ## Tokens -/

/-- `read_string` after the opening quote: the text and the rest. Two quotes stand for one. -/
def readString : List Char → Option (List Char × List Char)
  | [] => none
  | '\'' :: '\'' :: t => (readString t).map fun r => ('\'' :: r.1, r.2)
  | '\'' :: t => some ([], t)
  | c :: t => (readString t).map fun r => (c :: r.1, r.2)

def readIdentOrKeyword (t : List Char) : Token × List Char :=
  let word := t.takeWhile isWordRest
  (⟨keywordType (toUpperStr word), word⟩, t.dropWhile isWordRest)

/-- `read_number`. -/
def readNumberToken (t : List Char) : Token × List Char :=
  (⟨.NUMBER, t.takeWhile isNumberRest⟩, t.dropWhile isNumberRest)

/-- Operators and separators, `c` being the character and `t` the rest. -/
def readOperator (c : Char) (t : List Char) : Option (Token × List Char) :=
  match c, t with
  | ',', t => some (⟨.COMMA, [',']⟩, t)
  | '.', t => some (⟨.DOT, ['.']⟩, t)
  | '(', t => some (⟨.LPAREN, ['(']⟩, t)
  | ')', t => some (⟨.RPAREN, [')']⟩, t)
  | '*', t => some (⟨.STAR, ['*']⟩, t)
  | '+', t => some (⟨.PLUS, ['+']⟩, t)
  | '-', t => some (⟨.MINUS, ['-']⟩, t)
  | '/', t => some (⟨.SLASH, ['/']⟩, t)
  | '=', t => some (⟨.EQ, ['=']⟩, t)
  | '>', '=' :: t => some (⟨.GE, ['>', '=']⟩, t)
  | '>', t => some (⟨.GT, ['>']⟩, t)
  | '<', '=' :: t => some (⟨.LE, ['<', '=']⟩, t)
  | '<', '>' :: t => some (⟨.NE, ['<', '>']⟩, t)
  | '<', t => some (⟨.LT, ['<']⟩, t)
  | '!', '=' :: t => some (⟨.NE, ['!', '=']⟩, t)
  | _, _ => none

/-- After these tokens a minus sign subtracts. -/
def minusIsBinary (last : Option TokenType) : Bool :=
  last = some .RPAREN || last = some .NUMBER || last = some .IDENT

/-- The text of the exception at a character; `pos` is the position after it. -/
def unexpectedCharacter (c : Char) (pos : Nat) : String :=
  "Tokenizer: unexpected character '" ++ c.toString ++ "' at position " ++ toString pos

/-- The token at a position that is not blank, unless a comment, and the position after it; `pos`
characters are before `t`. -/
def lex (last : Option TokenType) (pos : Nat) (c : Char) (t : List Char) :
    Except String (Option Token × List Char) :=
  if c = '-' ∧ t.head? = some '-' then .ok (none, t.dropWhile fun c => c ≠ '\n')
  else if c.isDigit then
    let r := readNumberToken (c :: t)
    .ok (some r.1, r.2)
  else if c = '-' ∧ t.head?.any Char.isDigit then
    if minusIsBinary last then .ok (some ⟨.MINUS, ['-']⟩, t)
    else
      let r := readNumberToken t
      .ok (some { r.1 with value := '-' :: r.1.value }, r.2)
  else if c = '\'' then
    match readString t with
    | some r => .ok (some ⟨.STRING, r.1⟩, r.2)
    | none => .error "Tokenizer: unterminated string literal"
  else if isWordStart c then
    let r := readIdentOrKeyword (c :: t)
    .ok (some r.1, r.2)
  else if c = backtick then
    .ok (some ⟨.IDENT, t.takeWhile fun c => c ≠ backtick⟩,
      (t.dropWhile fun c => c ≠ backtick).drop 1)
  else
    match readOperator c t with
    | some r => .ok (some r.1, r.2)
    | none => .error (unexpectedCharacter c (pos + 1))

/-- The loop of `tokenize`: of `len` characters the rest is `t`; `fuel` bounds its rounds. -/
def tokenizeFrom (len : Nat) : Nat → Option TokenType → List Char → Except String (List Token)
  | 0, _, _ => .ok [⟨.END, []⟩]
  | fuel + 1, last, t =>
    match t.dropWhile isBlank with
    | [] => .ok [⟨.END, []⟩]
    | c :: t => do
      let r ← lex last (len - (t.length + 1)) c t
      match r.1 with
      | none => tokenizeFrom len fuel last r.2
      | some token =>
        let rest ← tokenizeFrom len fuel (some token.type) r.2
        pure (token :: rest)

def tokenize (sql : List Char) : Except String (List Token) :=
  tokenizeFrom sql.length (sql.length + 1) none sql

/-! ## What the tokens of a text are

`Lexes` composes: the tokens of a text are those of its parts, as long as a word or a number is
followed by a character that ends it. -/

/-- The loop reads these tokens, given enough rounds. -/
def Lexes (len : Nat) (last : Option TokenType) (t : List Char) (tokens : List Token) : Prop :=
  ∀ fuel, t.length < fuel → tokenizeFrom len fuel last t = .ok tokens

section

variable {len : Nat} {last : Option TokenType} {t : List Char} {tokens : List Token}

theorem Lexes.tokenize {sql : List Char} (h : Lexes sql.length none sql tokens) :
    tokenize sql = .ok tokens :=
  h _ (Nat.lt_succ_self _)

theorem lexes_nil : Lexes len last [] [⟨.END, []⟩] := by
  intro fuel hfuel
  obtain ⟨fuel, rfl⟩ := Nat.exists_eq_add_of_lt hfuel
  rfl

theorem Lexes.blank {b : Char} (h : Lexes len last t tokens) (hb : isBlank b := by decide) :
    Lexes len last (b :: t) tokens := by
  intro fuel hfuel
  rw [length_cons] at hfuel
  rw [← h fuel (by omega)]
  cases fuel with
  | zero => rfl
  | succ fuel => rw [tokenizeFrom, tokenizeFrom, dropWhile_cons_of_pos hb]

theorem Lexes.token {c : Char} {token : Token} {rest : List Char} (hc : isBlank c = false)
    (hlex : ∀ pos, lex last pos c t = .ok (some token, rest)) (hrest : rest.length ≤ t.length)
    (h : Lexes len (some token.type) rest tokens) :
    Lexes len last (c :: t) (token :: tokens) := by
  intro fuel hfuel
  rw [length_cons] at hfuel
  obtain ⟨fuel, rfl⟩ : ∃ n, fuel = n + 1 := ⟨fuel - 1, by omega⟩
  rw [tokenizeFrom, dropWhile_blank hc]
  simp only [hlex]
  show (tokenizeFrom len fuel (some token.type) rest >>= _) = _
  rw [h fuel (by omega)]
  rfl

theorem isWordStart_facts {c : Char} (h : isWordStart c) :
    isBlank c = false ∧ c ≠ '-' ∧ c.isDigit = false ∧ c ≠ '\'' := by
  have hrange : c = '_' ∨ 65 ≤ c.toNat := by
    simp only [isWordStart, Char.isAlpha, Char.isUpper, Char.isLower, Bool.or_eq_true,
      Bool.and_eq_true, decide_eq_true_eq] at h
    rcases h with (h | h) | h
    · exact .inr h.1
    · have := h.1
      right
      exact le_trans (by decide) this
    · exact .inl h
  rcases hrange with rfl | hle
  · decide
  refine ⟨?_, ?_, ?_, ?_⟩
  · simp only [isBlank, Bool.or_eq_false_iff, decide_eq_false_iff_not, Bool.and_eq_false_iff]
    refine ⟨?_, .inr (by omega)⟩
    rintro rfl
    simp at hle
  · rintro rfl
    simp at hle
  · rw [Char.isDigit, Bool.and_eq_false_iff, decide_eq_false_iff_not, decide_eq_false_iff_not]
    right
    intro hdigit
    have : c.toNat ≤ 57 := hdigit
    omega
  · rintro rfl
    simp at hle

theorem Lexes.word {c : Char} {cs : List Char} (hc : isWordStart c)
    (hcs : ∀ d ∈ cs, isWordRest d) (ht : Ends isWordRest t)
    (h : Lexes len (some (keywordType (toUpperStr (c :: cs)))) t tokens) :
    Lexes len last (c :: cs ++ t) (⟨keywordType (toUpperStr (c :: cs)), c :: cs⟩ :: tokens) := by
  obtain ⟨hblank, hminus, hdigit, hquote⟩ := isWordStart_facts hc
  have hrest : isWordRest c := by
    simp only [isWordStart, isWordRest, Char.isAlphanum, Bool.or_eq_true] at hc ⊢
    tauto
  have hspan := takeWhile_append_ends (w := c :: cs) (p := isWordRest)
    (forall_mem_cons.mpr ⟨hrest, hcs⟩) ht
  rw [cons_append] at hspan ⊢
  refine token hblank (fun pos => ?_) (by simp) h
  rw [lex, if_neg (by simp [hminus]), if_neg (by simp [hdigit]), if_neg (by simp [hminus]),
    if_neg hquote, if_pos hc, readIdentOrKeyword]
  simp [hspan.1, hspan.2]

theorem Lexes.operator {c : Char} {token : Token} (hblank : isBlank c = false)
    (hchar : c.isDigit = false ∧ c ≠ '-' ∧ c ≠ '\'' ∧ isWordStart c = false ∧ c ≠ backtick)
    (hop : readOperator c t = some (token, t)) (h : Lexes len (some token.type) t tokens) :
    Lexes len last (c :: t) (token :: tokens) := by
  obtain ⟨hdigit, hminus, hquote, hword, htick⟩ := hchar
  refine .token hblank (fun pos => ?_) (le_refl _) h
  rw [lex, if_neg (by simp [hminus]), if_neg (by simp [hdigit]), if_neg (by simp [hminus]),
    if_neg hquote, if_neg (by simp [hword]), if_neg htick, hop]

theorem Lexes.comma (h : Lexes len (some .COMMA) t tokens) :
    Lexes len last (',' :: t) (⟨.COMMA, [',']⟩ :: tokens) :=
  operator (by decide) (by decide) rfl h

theorem Lexes.lparen (h : Lexes len (some .LPAREN) t tokens) :
    Lexes len last ('(' :: t) (⟨.LPAREN, ['(']⟩ :: tokens) :=
  operator (by decide) (by decide) rfl h

theorem Lexes.rparen (h : Lexes len (some .RPAREN) t tokens) :
    Lexes len last (')' :: t) (⟨.RPAREN, [')']⟩ :: tokens) :=
  operator (by decide) (by decide) rfl h

/-- A number, which may be negative where no subtraction can stand. -/
theorem Lexes.number {z : Int} (hlast : minusIsBinary last = false) (ht : Ends isNumberRest t)
    (h : Lexes len (some .NUMBER) t tokens) :
    Lexes len last (decimalInt z ++ t) (⟨.NUMBER, decimalInt z⟩ :: tokens) := by
  have hspan := takeWhile_append_ends (w := decimal z.natAbs) (p := isNumberRest)
    (fun c hc => by simp [isNumberRest, isDigit_decimal hc]) ht
  obtain ⟨d, ds, hd⟩ := exists_cons_of_ne_nil (decimal_ne_nil z.natAbs)
  have hdigit : d.isDigit := isDigit_decimal (hd ▸ mem_cons_self)
  unfold decimalInt
  split
  · -- The sign is followed by a digit, so there is no comment.
    rw [cons_append]
    refine token (by decide) (fun pos => ?_) (by simp) h
    have hhead : (decimal z.natAbs ++ t).head? = some d := by rw [hd]; rfl
    have hne : d ≠ '-' := by
      rintro rfl
      exact absurd hdigit (by decide)
    rw [lex, if_neg (by rw [hhead]; simpa using hne), if_neg (by decide),
      if_pos ⟨rfl, by rw [hhead]; exact hdigit⟩, if_neg (by simp [hlast]), readNumberToken]
    simp [hspan.1, hspan.2]
  · rw [hd] at hspan ⊢
    have hblank := isBlank_of_isDigit hdigit
    have hne : d ≠ '-' := by
      rintro rfl
      exact absurd hdigit (by decide)
    rw [cons_append] at hspan ⊢
    refine token hblank (fun pos => ?_) (by simp) h
    rw [lex, if_neg (by simp [hne]), if_pos hdigit, readNumberToken]
    simp [hspan.1, hspan.2]

/-- A string literal is closed by a single quote. -/
theorem Lexes.string {raw s : List Char} (hraw : readString (raw ++ '\'' :: t) = some (s, t))
    (h : Lexes len (some .STRING) t tokens) :
    Lexes len last ('\'' :: (raw ++ '\'' :: t)) (⟨.STRING, s⟩ :: tokens) := by
  refine token (by decide) (fun pos => ?_) (by simp; omega) h
  rw [lex, if_neg (by simp), if_neg (by decide), if_neg (by simp), if_pos rfl, hraw]

end

end Zepto.Sql
