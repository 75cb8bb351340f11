import Zepto.Sql.Ddl
import Zepto.Sql.Tokenizer

/-!
# Parsing

A parser reads a list of tokens from the front and throws a text. Behind the last token stands
`END`, and every position behind that reads as `END` too. `parseInsert` is the parser of `INSERT`
statements.
-/

namespace Zepto.Sql

open Zepto.Lib

/-- A computation of the parser, on the tokens from a position on. -/
abbrev Parse (α : Type) := StateT (List Token) (Except String) α

namespace Parse

def current : Parse Token := fun ts => .ok (ts.headD ⟨.END, []⟩, ts)

def advance : Parse Unit := fun ts => .ok ((), ts.tail)

/-- The token at a position has the type and is not `END`. -/
def headIs (type : TokenType) (ts : List Token) : Bool :=
  ts.head?.any fun token => token.type ≠ .END && token.type = type

def check (type : TokenType) : Parse Bool := fun ts => .ok (headIs type ts, ts)

/-- `check` at the token after the current one. -/
def checkNext (type : TokenType) : Parse Bool := fun ts => .ok (headIs type ts.tail, ts)

/-- `match`. -/
def accept (type : TokenType) : Parse Bool := fun ts =>
  if headIs type ts then .ok (true, ts.tail) else .ok (false, ts)

def expect (type : TokenType) (msg : String) : Parse Token := fun ts =>
  if headIs type ts then .ok (ts.headD ⟨.END, []⟩, ts.tail)
  else .error ("Parser: expected " ++ msg ++ " but got '" ++
    .ofList (ts.headD ⟨.END, []⟩).value ++ "'")

def fail {α : Type} (msg : String) : Parse α := fun _ => .error msg

def lift {α : Type} (x : Except String α) : Parse α := fun ts => x.map fun a => (a, ts)

/-- `do { ... } while (match(COMMA))`; a round but the last takes a comma. -/
def commaSeparated {α : Type} (item : Parse α) : Parse (List α) := fun ts =>
  loop (ts.length + 1) ts
where
  loop : Nat → Parse (List α)
    | 0 => fail "Parser: out of tokens"
    | fuel + 1 => do
      let a ← item
      if ← accept .COMMA then
        let rest ← loop fuel
        pure (a :: rest)
      else pure [a]

end Parse

open Parse

/-- `std::stod` of a token with a dot: digits, dot, digits; the rest is ignored. -/
def stod (s : List Char) : Except String Float :=
  let (neg, s) := match s with
    | '-' :: s => (true, s)
    | s => (false, s)
  let whole := s.takeWhile Char.isDigit
  let fraction := ((s.dropWhile Char.isDigit).drop 1).takeWhile Char.isDigit
  let x := Float.ofScientific (numberOf (whole ++ fraction)) true fraction.length
  if x.isInf then .error "stod" else .ok (if neg then -x else x)

/-- A value of a row of `VALUES`. -/
def parseInsertValue : Parse InsertValue := do
  if ← check .STRING then
    let token ← current
    advance
    pure (.string (.ofList token.value))
  else
    let neg ← accept .MINUS
    let token ← expect .NUMBER "number or string"
    if '.' ∈ token.value then
      let d ← lift (stod token.value)
      pure (.float (if neg then -d else d))
    else
      let v ← lift (stoll token.value)
      pure (.int (if neg then wrap64 (-v) else v))

/-- `check_ahead_is_values`: the parenthesis opens a row, not the columns. -/
def checkAheadIsValues : Parse Bool := do
  pure ((← checkNext .NUMBER) || (← checkNext .MINUS))

def parseInsertColumns : Parse (List String) := do
  if (← check .LPAREN) && !(← checkAheadIsValues) then
    advance
    let columns ← commaSeparated do
      let token ← expect .IDENT "column name"
      pure (.ofList token.value)
    let _ ← expect .RPAREN ")"
    pure columns
  else pure []

/-- A row of `VALUES`. -/
def parseInsertRow : Parse (List InsertValue) := do
  let _ ← expect .LPAREN "("
  let row ← commaSeparated parseInsertValue
  let _ ← expect .RPAREN ")"
  pure row

def parseInsert : Parse InsertStmt := do
  let _ ← expect .INSERT "INSERT"
  let _ ← expect .INTO "INTO"
  let table ← expect .IDENT "table name"
  let columns ← parseInsertColumns
  let _ ← expect .VALUES "VALUES"
  let valueRows ← commaSeparated parseInsertRow
  pure { tableName := .ofList table.value, columns, valueRows }

/-! ## Reading from the front -/

namespace Parse

variable {α β : Type} {ts : List Token} {token : Token}

section

variable {rest : List Token} {type : TokenType}

theorem bind_ok {x : Parse α} {f : α → Parse β} {a : α} (h : x ts = .ok (a, rest)) :
    (x >>= f) ts = f a rest := by
  show (x ts >>= fun p => f p.1 p.2) = f a rest
  rw [h]
  rfl

theorem headIs_cons (h : token.type = type) (hend : type ≠ .END) : headIs type (token :: ts) := by
  simp [headIs, h, hend]

theorem expect_mk {value : List Char} (hend : type ≠ .END) (msg : String) :
    expect type msg (⟨type, value⟩ :: ts) = .ok (⟨type, value⟩, ts) := by
  rw [expect, if_pos (by simp [headIs, hend])]
  rfl

theorem accept_cons (h : token.type = type) (hend : type ≠ .END) :
    accept type (token :: ts) = .ok (true, ts) := by
  rw [accept, if_pos (headIs_cons h hend)]
  rfl

theorem accept_of_not (h : headIs type ts = false) : accept type ts = .ok (false, ts) := by
  rw [accept, if_neg (by simp [h])]

theorem accept_ne (h : token.type ≠ type) : accept type (token :: ts) = .ok (false, token :: ts) :=
  accept_of_not (by simp [headIs, h])

/-- Items with commas between them, up to a token that is no comma. -/
inductive Separated (item : Parse α) : List Token → List α → List Token → Prop
  | last {ts rest : List Token} {a : α} : item ts = .ok (a, rest) →
      headIs .COMMA rest = false → Separated item ts [a] rest
  | more {ts ts' rest : List Token} {comma : Token} {a : α} {as : List α} :
      item ts = .ok (a, comma :: ts') → comma.type = .COMMA → ts'.length < ts.length →
      Separated item ts' as rest → Separated item ts (a :: as) rest

theorem commaSeparated_of_separated {item : Parse α} {as : List α} (h : Separated item ts as rest) :
    commaSeparated item ts = .ok (as, rest) := by
  have hfuel : ∀ fuel, ts.length < fuel → commaSeparated.loop item fuel ts = .ok (as, rest) := by
    induction h with
    | last hitem hcomma =>
      intro fuel hlt
      obtain ⟨fuel, rfl⟩ : ∃ n, fuel = n + 1 := ⟨fuel - 1, by omega⟩
      rw [commaSeparated.loop, bind_ok hitem, bind_ok (accept_of_not hcomma)]
      rfl
    | more hitem hcomma hlen _ ih =>
      intro fuel hlt
      obtain ⟨fuel, rfl⟩ : ∃ n, fuel = n + 1 := ⟨fuel - 1, by omega⟩
      rw [commaSeparated.loop, bind_ok hitem,
        bind_ok (accept_cons hcomma (by decide)), if_pos rfl, bind_ok (ih fuel (by omega))]
      rfl
  exact hfuel _ (Nat.lt_succ_self _)

end

end Parse

end Zepto.Sql
