import Zepto.Storage.Column

/-!
# SQL syntax trees

The trees the parser builds. `Expr Q` and `SelectStmt Q` leave the type of a nested query open;
`Query n` ties the knot for statements whose queries nest at most `n` deep, so a function on
statements recurses on `n`. A null `Expr` pointer, a condition that is always true, is `Expr.null`.
The function calls of a value expression are constructors, as the parser admits only these.
-/

namespace Zepto.Sql

open Zepto.Storage

inductive AggFunc where
  | none
  | count
  | sum
  | avg
  | min
  | max
  | vwap
  | first
  | last
  | xbar
  | stddev
  | variance
  | median
  | percentile
  deriving DecidableEq

inductive WindowFunc where
  | none
  | rowNumber
  | rank
  | denseRank
  | sum
  | avg
  | min
  | max
  | lag
  | lead
  | ema
  | delta
  | ratio
  deriving DecidableEq

inductive ArithOp where
  | add
  | sub
  | mul
  | div
  deriving DecidableEq

inductive CompareOp where
  | eq
  | ne
  | gt
  | lt
  | ge
  | le
  deriving DecidableEq

inductive DistanceFn where
  | haversine
  | stDistance
  deriving DecidableEq

/-- A value expression; `substr` keeps the text of its start position. -/
inductive ArithExpr where
  | column (tableAlias column : String)
  | literal (value : Int) (valueF : Float) (isFloat : Bool)
  | binary (op : ArithOp) (left right : ArithExpr)
  | now
  | interval (text : String)
  | dateTrunc (unit : String) (arg : ArithExpr)
  | epochS (arg : ArithExpr)
  | epochMs (arg : ArithExpr)
  | substr (arg : ArithExpr) (start : String)
  | substrLen (arg : ArithExpr) (start : String) (len : ArithExpr)
  | distance (fn : DistanceFn) (lat1 lon1 lat2 lon2 : ArithExpr)
  | within (lat1 lon1 lat2 lon2 radius : ArithExpr)

/-- The fields of a `COMPARE` node. -/
structure Comparison where
  tableAlias : String := ""
  column : String := ""
  op : CompareOp := .eq
  value : Int := 0
  valueF : Float := .ofBits 0
  isFloat : Bool := false
  valueStr : String := ""
  isString : Bool := false
  lhsExpr : Option ArithExpr := none
  valueExpr : Option ArithExpr := none

inductive Expr (Q : Type) where
  | null
  | compare (c : Comparison)
  | between (tableAlias column : String) (lhsExpr : Option ArithExpr) (lo hi : Int)
  | and (left right : Expr Q)
  | or (left right : Expr Q)
  | not (left : Expr Q)
  | inList (tableAlias column : String) (values : List Int) (negated : Bool)
  | isNull (tableAlias column : String) (negated : Bool)
  | like (tableAlias column pattern : String) (negated : Bool)
  | scalarSubquery (tableAlias column : String) (op : CompareOp) (query : Q)
  | inSubquery (tableAlias column : String) (query : Q)

/-- `CASE WHEN cond THEN value ... ELSE value END`; a missing `ELSE` is 0. -/
structure CaseWhen (Q : Type) where
  branches : List (Expr Q × ArithExpr)
  elseVal : Option ArithExpr := none

structure SelectExpr (Q : Type) where
  agg : AggFunc := .none
  aggDistinct : Bool := false
  tableAlias : String := ""
  column : String := ""
  aggArg2 : String := ""
  /-- The name after `AS`. -/
  asName : String := ""
  isStar : Bool := false
  xbarBucket : Int := 0
  percentileValue : Int := 50
  windowFunc : WindowFunc := .none
  arithExpr : Option ArithExpr := none
  caseWhen : Option (CaseWhen Q) := none

inductive JoinType where
  | inner
  | asof
  | left
  | right
  | full
  | window
  | unionJoin
  | plus
  | aj0
  deriving DecidableEq

structure JoinCondition where
  leftAlias : String := ""
  leftCol : String
  op : CompareOp := .eq
  rightAlias : String := ""
  rightCol : String
  deriving DecidableEq

structure JoinClause where
  type : JoinType := .inner
  table : String
  tableAlias : String := ""
  onConditions : List JoinCondition := []
  deriving DecidableEq

/-- One `GROUP BY` key; with a positive bucket an `XBAR` or `DATE_TRUNC` key. -/
structure GroupKey where
  column : String
  tableAlias : String := ""
  xbarBucket : Int := 0
  dateTruncBucket : Int := 0
  deriving DecidableEq

structure OrderByItem where
  tableAlias : String := ""
  column : String
  asc : Bool := true
  deriving DecidableEq

inductive SetOp where
  | none
  | unionAll
  | unionDistinct
  | intersect
  | except
  deriving DecidableEq

structure SelectStmt (Q : Type) where
  /-- The `WITH` definitions, in order. -/
  cteDefs : List (String × Q) := []
  explain : Bool := false
  distinct : Bool := false
  columns : List (SelectExpr Q)
  fromTable : String := ""
  fromAlias : String := ""
  fromSubquery : Option Q := none
  join : Option JoinClause := none
  whereClause : Option (Expr Q) := none
  groupBy : Option (List GroupKey) := none
  orderBy : Option (List OrderByItem) := none
  limit : Option Int := none
  offset : Option Int := none
  sampleRate : Option Float := none
  having : Option (Expr Q) := none
  setOp : SetOp := .none
  rhs : Option Q := none

/-- Statements whose queries nest at most `n` deep. -/
def Query : Nat → Type
  | 0 => Empty
  | n + 1 => SelectStmt (Query n)

end Zepto.Sql
