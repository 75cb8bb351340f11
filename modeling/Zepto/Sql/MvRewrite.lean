import Zepto.Sql.Ddl

/-!
# Answers from materialized views

`tryRewrite` follows `MVRewriter::try_rewrite`: a plain `GROUP BY` aggregation whose table, time
bars, keys and aggregates match a view is answered with the rows of the view. `rewriteResult` is
what `execute_impl` makes of them.
-/

namespace Zepto.Sql

open Zepto.Lib Zepto.Storage

variable {Q : Type}

/-- Only plain `GROUP BY` aggregations are candidates. -/
def rewriteCandidate (stmt : SelectStmt Q) : Bool :=
  stmt.groupBy.isSome && stmt.whereClause.isNone && stmt.join.isNone && stmt.having.isNone &&
    !stmt.distinct && stmt.fromSubquery.isNone && stmt.cteDefs.isEmpty && stmt.setOp = .none

/-- The aggregates of the select list; none if one has no counterpart in a view. -/
def queryAggs (stmt : SelectStmt Q) : Option (List (MVAggType × String)) :=
  (stmt.columns.filter fun c => c.agg ≠ .none).mapM fun c => (mapAgg c.agg).map (·, c.column)

/-- `sets_equal`: the same names, however often and in whatever order. -/
def setsEqual (a b : List String) : Bool :=
  a.mergeSort (fun x y => x ≤ y) = b.mergeSort (fun x y => x ≤ y)

/-- `aggs_match`: every aggregate is a column of the view. -/
def aggsMatch (query : List (MVAggType × String)) (columns : List MVColumnDef) : Bool :=
  query.all fun q => columns.any fun c => c.agg = q.1 && c.sourceCol = q.2

/-- A view matches a `GROUP BY` aggregation. -/
def viewMatches (stmt : SelectStmt Q) (aggs : List (MVAggType × String)) (spec : MVDef) : Bool :=
  spec.sourceTable = stmt.fromTable && spec.xbarBucket = xbarOf (stmt.groupBy.getD []) &&
    setsEqual (plainKeys (stmt.groupBy.getD [])) spec.groupBy && aggsMatch aggs spec.columns

def tryRewrite (stmt : SelectStmt Q) (views : Views) : Option ViewResult :=
  if rewriteCandidate stmt then
    match queryAggs stmt with
    | none | some [] => none
    | some aggs =>
      (views.entries.find? fun e => viewMatches stmt aggs e.2.spec).map fun e =>
        views.queryView e.1
  else none

/-- The rows from `off` on, at most `lim` of them. -/
def cutRows (rows : List (List Int)) (off lim : Int) : List (List Int) :=
  if off < rows.length then
    if off + lim < rows.length then (rows.drop off.toNat).take lim.toNat else rows.drop off.toNat
  else []

def rewriteResult (stmt : SelectStmt Q) (view : ViewResult) : QueryResult :=
  let r : QueryResult :=
    { columnNames := view.columnNames
      columnTypes := view.columnNames.map fun _ => .int64
      rows := view.rows }
  let r := applyOrderBy r stmt.orderBy stmt.offset stmt.limit
  match stmt.limit with
  | some lim => { r with rows := cutRows r.rows (stmt.offset.getD 0) lim }
  | none => r

end Zepto.Sql
