import Zepto.Sql.Select

/-!
# The meaning of a condition

`rowMeans` is what a condition of any kind says about a row. The pseudo-column `symbol` is the
symbol of the partition, a name stands for its code in the dictionary, `NOW()` and its relatives
for their value at the clock, and a nested query for its answer. Tests of stored columns are
those of the executor.
-/

namespace Zepto.Sql

open Zepto.Lib Zepto.Storage List

variable {Q : Type}

/-- What the literals and the nested queries of a condition stand for. -/
structure Reading (Q : Type) where
  env : Env
  dict : StringDictionary
  /-- The answers of the nested queries. -/
  answer : Q → QueryResult

def readingOf (env : Env) (db : Database) (answer : Q → QueryResult) : Reading Q :=
  { env, dict := db.symbolDict, answer }

/-- The comparison with its literal filled in; a name without a code is -1. -/
def Comparison.filled (rd : Reading Q) (c : Comparison) : Comparison :=
  match c.valueExpr with
  | some e =>
    match evalArithConst rd.env e with
    | .ok v => { c with value := v, valueExpr := none }
    | .error _ => c
  | none => if c.isString then { c with value := rd.dict.find c.valueStr } else c

/-- A comparison of the pseudo-column with a filled in literal. -/
def symbolCompares (p : Partition) (c : Comparison) : Bool :=
  if c.isFloat then c.op.testF64 (doubleOfInt p.symbolValue) c.valueF
  else c.op.test p.symbolValue c.value

def compareMeans (rd : Reading Q) (p : Partition) (i : Nat) (c : Comparison) : Bool :=
  if c.column = "symbol" ∧ c.lhsExpr.isNone then symbolCompares p (c.filled rd)
  else passes (compareTest rd.env p (c.filled rd) i)

def rowMeans (rd : Reading Q) (p : Partition) (i : Nat) : Expr Q → Bool
  | .null => true
  | .and l r => rowMeans rd p i l && rowMeans rd p i r
  | .or l r => rowMeans rd p i l || rowMeans rd p i r
  | .not l => !rowMeans rd p i l
  | .compare c => compareMeans rd p i c
  | .between _ col lhs lo hi =>
    if col = "symbol" ∧ lhs.isNone then lo ≤ p.symbolValue && p.symbolValue ≤ hi
    else passes (betweenTest rd.env p col lhs lo hi i)
  | .inList _ col vals neg => inTestRow p col vals neg i
  | .isNull _ col neg => if col = "symbol" then neg else isNullTest p col neg i
  | .like _ col pat neg => likeTest p col pat neg i
  | .scalarSubquery tableAlias col op q =>
    (scalarSubqueryError (rd.answer q)).isNone &&
      compareMeans rd p i (scalarComparison tableAlias col op (rd.answer q))
  | .inSubquery _ col q =>
    (inSubqueryError (rd.answer q)).isNone &&
      inTestRow p col ((rd.answer q).rows.map fun r => r.headD 0) false i

/-- What a `WHERE` says about a row. -/
def whereMeans (rd : Reading Q) (p : Partition) (w : Option (Expr Q)) (i : Nat) : Bool :=
  match w with
  | none => true
  | some e => rowMeans rd p i e

def matchingRows (rd : Reading Q) (w : Option (Expr Q)) (p : Partition) : List Nat :=
  (range p.numRows).filter (whereMeans rd p w)

def unmatchedRows (rd : Reading Q) (w : Option (Expr Q)) (p : Partition) : List Nat :=
  (range p.numRows).filter fun i => !whereMeans rd p w i

theorem matchingRows_add_unmatchedRows (rd : Reading Q) (w : Option (Expr Q)) (p : Partition) :
    (matchingRows rd w p).length + (unmatchedRows rd w p).length = p.numRows := by
  have h := length_eq_length_filter_add (l := range p.numRows) (whereMeans rd p w)
  rw [length_range] at h
  exact h.symm

/-! ## The rows a data change selects

`exec_update` and `exec_delete` skip the partitions of other symbols than the one
`has_where_symbol` found, unless it is negative, and scan the others. -/

/-- The partition is left to the scan by the symbol filter. -/
def passesSymbolFilter (dict : StringDictionary) (w : Option (Expr Q)) (p : Partition) : Bool :=
  match hasWhereSymbol dict w with
  | some sym => sym < 0 || p.key.symbolId = toSymbolId sym
  | none => true

/-- The rows of a partition the scan of the `WHERE` returns. -/
def scanWhere (env : Env) (p : Partition) (w : Option (Expr Q)) : List Nat :=
  match w with
  | none => range p.numRows
  | some e => scanRows env p p.numRows e

/-- The scan of the `WHERE` throws at no row. -/
def WhereOk (env : Env) (p : Partition) (w : Option (Expr Q)) : Prop :=
  ∀ e, w = some e → ScanOk env p p.numRows e

def selectedRows (env : Env) (dict : StringDictionary) (w : Option (Expr Q)) (p : Partition) :
    List Nat :=
  if passesSymbolFilter dict w p then scanWhere env p w else []

section

variable {env : Env} {p : Partition} {w : Option (Expr Q)}

theorem evalWhere_eq_ok {l : List Nat} :
    evalWhere env p p.numRows w = .ok l ↔ WhereOk env p w ∧ l = scanWhere env p w := by
  cases w with
  | none => simp [evalWhere, WhereOk, scanWhere, eq_comm]
  | some e => simp [evalWhere, WhereOk, scanWhere, evalExpr_eq_ok]

theorem scanWhere_sublist : (scanWhere env p w).Sublist (range p.numRows) := by
  cases w with
  | none => exact .refl _
  | some e => exact filter_sublist

theorem selectedRows_sublist (env : Env) (dict : StringDictionary) (w : Option (Expr Q))
    (p : Partition) : (selectedRows env dict w p).Sublist (range p.numRows) := by
  unfold selectedRows
  split
  · exact scanWhere_sublist
  · exact nil_sublist _

end

end Zepto.Sql
