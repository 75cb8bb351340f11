import Zepto.Sql.SimpleSelect

/-!
# SELECT

`execSelect` follows `exec_select`: it resolves the clock and the subqueries of the `WHERE` into
literals, runs set operations, and reads a subquery, a materialized view, a common table expression
or a table, in this order. The nodes of the statement are shared, so the literals stay in the tree;
the statement left behind is part of the result. Joins, aggregates and window functions are a
parameter (`Executors`).
-/

namespace Zepto.Sql

open Zepto.Lib Zepto.Storage

/-- The executors the partitions go to. `Stats` is what the planner remembers; it reaches only the
build side of inner and full joins and the plans. -/
structure Executors (Stats : Type) where
  agg {Q : Type} : Env → SelectStmt Q → List Partition → Except String QueryResult
  groupAgg {Q : Type} : Env → SelectStmt Q → List Partition → Except String QueryResult
  asofJoin {Q : Type} : Env → SelectStmt Q → List Partition → List Partition →
    Except String QueryResult
  /-- The flag says that the hash table is built on the left side. -/
  hashJoin {Q : Type} : Env → Bool → SelectStmt Q → List Partition → List Partition →
    Except String QueryResult
  unionJoin {Q : Type} : Env → SelectStmt Q → List Partition → List Partition →
    Except String QueryResult
  plusJoin {Q : Type} : Env → SelectStmt Q → List Partition → List Partition →
    Except String QueryResult
  windowJoin {Q : Type} : Env → SelectStmt Q → List Partition → List Partition →
    Except String QueryResult
  windowFunctions {Q : Type} : SelectStmt Q → QueryResult → Except String QueryResult
  virtualSelect {Q : Type} : Env → SelectStmt Q → QueryResult → String →
    Except String QueryResult
  /-- The plan `EXPLAIN` shows. -/
  explain {Q : Type} : Stats → SelectStmt Q → Database → Except String QueryResult
  /-- The planner looks at the partitions it has not seen. -/
  updateStats : Stats → List Partition → Stats
  updateStats_idem : ∀ st ps, updateStats (updateStats st ps) ps = updateStats st ps
  /-- `estimate_rows`: the rows of all partitions it has seen, whatever the table. -/
  estimateRows : Stats → Nat
  /-- The rows it expects behind a filter, a third of them. -/
  filteredRows : Nat → Nat
  filteredRows_le : ∀ n, filteredRows n ≤ n

/-- What a statement sees: the clock, the database, the results of earlier common table
expressions. -/
structure Session where
  env : Env
  db : Database
  ctes : AList (fun _ : String => QueryResult) := ∅

section

variable {Q Stats : Type}

/-! ## Literals for the clock and for subqueries -/

/-- `resolve_value_exprs`: whether it succeeded, and the tree it leaves behind. -/
def resolveValueExprs (env : Env) : Expr Q → Except String Unit × Expr Q
  | .and l r =>
    match resolveValueExprs env l with
    | (.error e, l) => (.error e, .and l r)
    | (.ok _, l) => ((resolveValueExprs env r).1, .and l (resolveValueExprs env r).2)
  | .or l r =>
    match resolveValueExprs env l with
    | (.error e, l) => (.error e, .or l r)
    | (.ok _, l) => ((resolveValueExprs env r).1, .or l (resolveValueExprs env r).2)
  | .not l => ((resolveValueExprs env l).1, .not (resolveValueExprs env l).2)
  | .compare c =>
    match c.valueExpr with
    | none => (.ok (), .compare c)
    | some e =>
      match evalArithConst env e with
      | .ok v => (.ok (), .compare { c with value := v, valueExpr := none })
      | .error msg => (.error msg, .compare c)
  | e => (.ok (), e)

def resolveWhereExprs (env : Env) : Option (Expr Q) → Except String Unit × Option (Expr Q)
  | none => (.ok (), none)
  | some e => ((resolveValueExprs env e).1, some (resolveValueExprs env e).2)

/-- The comparison a scalar subquery with this one-cell result turns into. -/
def scalarComparison (tableAlias column : String) (op : CompareOp) (sub : QueryResult) :
    Comparison :=
  match sub.typedRows with
  | (tv :: _) :: _ =>
    if (sub.columnTypes.head?.map ColumnType.isFloat).getD false then
      { tableAlias, column, op, valueF := tv.asFloat, isFloat := true
        value := intOfDouble tv.asFloat }
    else { tableAlias, column, op, value := tv.asInt }
  | _ => { tableAlias, column, op, value := (sub.rows.headD []).headD 0 }

def scalarSubqueryError (sub : QueryResult) : Option String :=
  if !sub.ok then some ("Scalar subquery error: " ++ sub.error)
  else if sub.rows.length ≠ 1 ∨ sub.columnNames.length ≠ 1 then
    some ("Scalar subquery must return exactly 1 row × 1 column, got " ++
      toString sub.rows.length ++ " rows × " ++ toString sub.columnNames.length ++ " columns")
  else none

/-- What is wrong with the result of an `IN` subquery. -/
def inSubqueryError (sub : QueryResult) : Option String :=
  if !sub.ok then some ("IN subquery error: " ++ sub.error)
  else if sub.columnNames.length ≠ 1 then
    some ("IN subquery must return exactly 1 column, got " ++ toString sub.columnNames.length)
  else none

/-- How a nested query is run: outcome, query left behind, the planner's memory. -/
abbrev Runner (Q Stats : Type) := Q → Stats → Except String QueryResult × Q × Stats

def resolveSubqueries (run : Runner Q Stats) :
    Expr Q → Stats → Except String Unit × Expr Q × Stats
  | .and l r, st =>
    match resolveSubqueries run l st with
    | (.error e, l, st) => (.error e, .and l r, st)
    | (.ok _, l, st) =>
      let right := resolveSubqueries run r st
      (right.1, .and l right.2.1, right.2.2)
  | .or l r, st =>
    match resolveSubqueries run l st with
    | (.error e, l, st) => (.error e, .or l r, st)
    | (.ok _, l, st) =>
      let right := resolveSubqueries run r st
      (right.1, .or l right.2.1, right.2.2)
  | .not l, st =>
    let inner := resolveSubqueries run l st
    (inner.1, .not inner.2.1, inner.2.2)
  | .scalarSubquery tableAlias column op q, st =>
    match run q st with
    | (.error e, q, st) => (.error e, .scalarSubquery tableAlias column op q, st)
    | (.ok sub, q, st) =>
      match scalarSubqueryError sub with
      | some msg => (.error msg, .scalarSubquery tableAlias column op q, st)
      | none => (.ok (), .compare (scalarComparison tableAlias column op sub), st)
  | .inSubquery tableAlias column q, st =>
    match run q st with
    | (.error e, q, st) => (.error e, .inSubquery tableAlias column q, st)
    | (.ok sub, q, st) =>
      match inSubqueryError sub with
      | some msg => (.error msg, .inSubquery tableAlias column q, st)
      | none =>
        (.ok (), .inList tableAlias column ((sub.rows.map fun r => r.headD 0).eraseDups) false, st)
  | e, st => (.ok (), e, st)

/-! ## Reading tables -/

def needsCostPlanning (stmt : SelectStmt Q) : Bool :=
  stmt.join.isSome || stmt.fromSubquery.isSome || !stmt.cteDefs.isEmpty || stmt.setOp ≠ .none

def SelectStmt.hasAgg (stmt : SelectStmt Q) : Bool := stmt.columns.any fun c => c.agg ≠ .none

/-- All conditions are on columns qualified by the name (`expr_references_only`). -/
def Expr.referencesOnly (table : String) : Expr Q → Bool
  | .null => true
  | .and l r | .or l r => l.referencesOnly table && r.referencesOnly table
  | .not l => l.referencesOnly table
  | .compare c => c.tableAlias ≠ "" && c.tableAlias = table
  | .between q _ _ _ _ => q ≠ "" && q = table
  | .inList q _ _ _ => q ≠ "" && q = table
  | .isNull q _ _ => q ≠ "" && q = table
  | .like q _ _ _ | .scalarSubquery q _ _ _ | .inSubquery q _ _ => q ≠ "" && q = table

/-- `pushdown_predicates` moves the `WHERE` to this side of the join. -/
def pushesTo (w : Option (Expr Q)) (table : String) : Bool :=
  w.any fun e => table ≠ "" && e.referencesOnly table

/-- The `WHERE` is moved to the right side; the left side is asked first. -/
def pushesRight (stmt : SelectStmt Q) (j : JoinClause) : Bool :=
  !pushesTo stmt.whereClause stmt.fromTable && pushesTo stmt.whereClause j.table

/-- The planner builds the left side unless the right one seems smaller. -/
def plannerSwap (X : Executors Stats) (st : Stats) (stmt : SelectStmt Q) (j : JoinClause) : Bool :=
  let rows := max 1 (X.estimateRows st)
  let side (filtered : Bool) := if filtered then X.filteredRows rows else rows
  ¬side (pushesRight stmt j) < side (pushesTo stmt.whereClause stmt.fromTable)

theorem plannerSwap_of_not_pushesRight (X : Executors Stats) (st : Stats) {stmt : SelectStmt Q}
    {j : JoinClause} (h : pushesRight stmt j = false) : plannerSwap X st stmt j := by
  have hle := X.filteredRows_le (max 1 (X.estimateRows st))
  unfold plannerSwap
  rw [h]
  simp only [Bool.false_eq_true, if_false, decide_eq_true_eq]
  split <;> omega

def execJoin (X : Executors Stats) (ses : Session) (st : Stats) (stmt : SelectStmt Q)
    (j : JoinClause) (left : List Partition) : Except String QueryResult :=
  let right := ses.db.findPartitions j.table
  match j.type with
  | .asof | .aj0 => X.asofJoin ses.env stmt left right
  | .inner => X.hashJoin ses.env (plannerSwap X st stmt j) stmt left right
  | .left | .right => X.hashJoin ses.env false stmt left right
  | .full => X.hashJoin ses.env (plannerSwap X st stmt j) stmt left right
  | .unionJoin => X.unionJoin ses.env stmt left right
  | .plus => X.plusJoin ses.env stmt left right
  | .window => X.windowJoin ses.env stmt left right

def execScan (X : Executors Stats) (env : Env) (stmt : SelectStmt Q) (parts : List Partition) :
    Except String QueryResult := do
  let r ←
    if stmt.hasAgg && stmt.groupBy.isSome then X.groupAgg env stmt parts
    else if stmt.hasAgg then X.agg env stmt parts
    else execSimpleSelect env stmt parts
  if stmt.columns.any fun c => c.windowFunc ≠ .none then X.windowFunctions stmt r else pure r

/-- The partitions come from `symbol IN (...)`; this path has no joins. -/
def prunesByList (db : Database) (w : Option (Expr Q)) : Bool :=
  (hasWhereSymbol db.symbolDict w).isNone &&
    match hasWhereSymbolIn w with
    | some (_ :: _) => true
    | _ => false

/-- The part of `exec_select` that reads a table. -/
def execTable (X : Executors Stats) (ses : Session) (st : Stats) (stmt : SelectStmt Q) :
    Except String QueryResult :=
  let parts := prunedPartitions ses.db stmt.fromTable stmt.whereClause
  match stmt.join with
  | some j =>
    if prunesByList ses.db stmt.whereClause then execScan X ses.env stmt parts
    else execJoin X ses st stmt j parts
  | none => execScan X ses.env stmt parts

/-- A materialized view in `FROM`: the whole view, or a select over it for a `WHERE`, `ORDER BY` or
`LIMIT`. -/
def execView (X : Executors Stats) (ses : Session) (stmt : SelectStmt Q) (view : ViewResult) :
    Except String QueryResult :=
  let r : QueryResult :=
    { columnNames := view.columnNames
      columnTypes := view.columnNames.map fun _ => .int64
      rows := view.rows }
  if stmt.whereClause.isSome || stmt.orderBy.isSome || stmt.limit.isSome then
    X.virtualSelect ses.env stmt r
      (if stmt.fromAlias.isEmpty then stmt.fromTable else stmt.fromAlias)
  else .ok r

/-- What `FROM` names: a view before a common table expression before a table. -/
def execNamed (X : Executors Stats) (ses : Session) (st : Stats) (stmt : SelectStmt Q) :
    Except String QueryResult :=
  if (ses.db.views.lookup stmt.fromTable).isSome then
    execView X ses stmt (ses.db.views.queryView stmt.fromTable)
  else match ses.ctes.lookup stmt.fromTable with
    | some r =>
      X.virtualSelect ses.env stmt r
        (if stmt.fromAlias.isEmpty then stmt.fromTable else stmt.fromAlias)
    | none => execTable X ses st stmt

/-- Everything after the literals, for a statement without a set operation. -/
def execBody (X : Executors Stats) (ses : Session) (run : Runner Q Stats) (stmt : SelectStmt Q)
    (st : Stats) : Except String QueryResult × SelectStmt Q × Stats :=
  match stmt.fromSubquery with
  | some q =>
    match run q st with
    | (.error e, q, st) => (.error e, { stmt with fromSubquery := some q }, st)
    | (.ok sub, q, st) =>
      let stmt := { stmt with fromSubquery := some q }
      if !sub.ok then (.ok sub, stmt, st)
      else (X.virtualSelect ses.env stmt sub stmt.fromAlias, stmt, st)
  | none => (execNamed X ses st stmt, stmt, st)

/-- The opening of `exec_select`: literals for the clock and subqueries, then the planner. `none`
goes on. -/
def prepare (X : Executors Stats) (ses : Session) (run : Runner Q Stats) (stmt : SelectStmt Q)
    (st : Stats) : Option (Except String QueryResult) × SelectStmt Q × Stats :=
  match resolveWhereExprs ses.env stmt.whereClause with
  | (.error e, w) => (some (.error e), { stmt with whereClause := w }, st)
  | (.ok _, w) =>
    match resolveWhereExprs ses.env stmt.having with
    | (.error e, h) => (some (.error e), { stmt with whereClause := w, having := h }, st)
    | (.ok _, h) =>
      let plan (stmt : SelectStmt Q) (st : Stats) :=
        (none, stmt, if needsCostPlanning stmt then X.updateStats st ses.db.partitions else st)
      match w with
      | none => plan { stmt with whereClause := none, having := h } st
      | some e =>
        match resolveSubqueries run e st with
        | (.error msg, e, st) =>
          (some (.ok (.failed msg)), { stmt with whereClause := some e, having := h }, st)
        | (.ok _, e, st) => plan { stmt with whereClause := some e, having := h } st

/-- `exec_select` on a statement whose set operation was taken off. -/
def execNoSet (X : Executors Stats) (ses : Session) (run : Runner Q Stats) (stmt : SelectStmt Q)
    (st : Stats) : Except String QueryResult × SelectStmt Q × Stats :=
  match prepare X ses run stmt st with
  | (some r, stmt, st) => (r, stmt, st)
  | (none, stmt, st) => execBody X ses run stmt st

def SetOp.combine (op : SetOp) (left right : List (List Int)) : List (List Int) :=
  match op with
  | .none => []
  | .unionAll => left ++ right
  | .unionDistinct => (left ++ right).eraseDups
  | .intersect => left.filter fun row => row ∈ right
  | .except => left.filter fun row => row ∉ right

/-- The result of a set operation: the first error, or the rows under the left names. -/
def combineResults (op : SetOp) (left right : QueryResult) : QueryResult :=
  if !left.ok then left
  else if !right.ok then right
  else
    { columnNames := left.columnNames
      columnTypes := left.columnTypes
      rows := op.combine left.rows right.rows
      rowsScanned := left.rowsScanned + right.rowsScanned }

/-- A set operation: the left side is the statement itself without it. -/
def execSetOp (X : Executors Stats) (ses : Session) (run : Runner Q Stats) (stmt : SelectStmt Q)
    (rhs : Q) (st : Stats) : Except String QueryResult × SelectStmt Q × Stats :=
  match execNoSet X ses run { stmt with setOp := .none, rhs := none } st with
  | (left, leftStmt, st) =>
    let stmt' := { leftStmt with setOp := stmt.setOp, rhs := some rhs }
    match left with
    | .error e => (.error e, stmt', st)
    | .ok left =>
      match run rhs st with
      | (.error e, rhs, st) => (.error e, { stmt' with rhs := some rhs }, st)
      | (.ok right, rhs, st) =>
        (.ok (combineResults stmt.setOp left right), { stmt' with rhs := some rhs }, st)

/-- One level of `exec_select`; `run` executes the queries inside the statement. -/
def execStep (X : Executors Stats) (ses : Session) (run : Runner Q Stats) (stmt : SelectStmt Q)
    (st : Stats) : Except String QueryResult × SelectStmt Q × Stats :=
  match prepare X ses run stmt st with
  | (some r, stmt, st) => (r, stmt, st)
  | (none, stmt, st) =>
    match stmt.setOp, stmt.rhs with
    | .none, _ | _, none => execBody X ses run stmt st
    | _, some rhs => execSetOp X ses run stmt rhs st

/-! ## Conditions that stay as they are -/

/-- No comparison waits for the value of an expression. -/
def Expr.hasLiterals : Expr Q → Bool
  | .and l r | .or l r => l.hasLiterals && r.hasLiterals
  | .not l => l.hasLiterals
  | .compare c => c.valueExpr.isNone
  | _ => true

/-- No condition waits for the result of a subquery. -/
def Expr.subqueryFree : Expr Q → Bool
  | .and l r | .or l r => l.subqueryFree && r.subqueryFree
  | .not l => l.subqueryFree
  | .scalarSubquery .. | .inSubquery .. => false
  | _ => true

theorem resolveValueExprs_of_hasLiterals (env : Env) {e : Expr Q} (h : e.hasLiterals) :
    resolveValueExprs env e = (.ok (), e) := by
  induction e with
  | and l r ihl ihr | or l r ihl ihr =>
    simp only [Expr.hasLiterals, Bool.and_eq_true] at h
    simp [resolveValueExprs, ihl h.1, ihr h.2]
  | not l ih => simp [resolveValueExprs, ih h]
  | compare c =>
    simp only [Expr.hasLiterals, Option.isNone_iff_eq_none] at h
    simp [resolveValueExprs, h]
  | _ => rfl

theorem resolveWhereExprs_of_hasLiterals (env : Env) {w : Option (Expr Q)}
    (h : w.all Expr.hasLiterals) : resolveWhereExprs env w = (.ok (), w) := by
  cases w with
  | none => rfl
  | some e => simp [resolveWhereExprs, resolveValueExprs_of_hasLiterals env (e := e) h]

theorem resolveSubqueries_of_subqueryFree (run : Runner Q Stats) (st : Stats) {e : Expr Q}
    (h : e.subqueryFree) : resolveSubqueries run e st = (.ok (), e, st) := by
  induction e with
  | and l r ihl ihr | or l r ihl ihr =>
    simp only [Expr.subqueryFree, Bool.and_eq_true] at h
    simp [resolveSubqueries, ihl h.1, ihr h.2]
  | not l ih => simp [resolveSubqueries, ih h]
  | scalarSubquery | inSubquery => cases h
  | _ => rfl

theorem prepare_eq (X : Executors Stats) (ses : Session) (run : Runner Q Stats)
    {stmt : SelectStmt Q} (st : Stats)
    (hw : stmt.whereClause.all fun e => e.hasLiterals && e.subqueryFree)
    (hh : stmt.having.all Expr.hasLiterals) : prepare X ses run stmt st =
      (none, stmt, if needsCostPlanning stmt then X.updateStats st ses.db.partitions else st) := by
  obtain ⟨w, hwe⟩ : ∃ w, stmt.whereClause = w := ⟨_, rfl⟩
  rw [hwe] at hw
  unfold prepare
  rw [hwe, resolveWhereExprs_of_hasLiterals _ hh]
  -- The rebuilt statement has the fields of the old one.
  have hstmt : { stmt with whereClause := w } = stmt := by rw [← hwe]
  cases w with
  | none => simp [resolveWhereExprs, hstmt]
  | some e =>
    simp only [Option.all_some, Bool.and_eq_true] at hw
    simp [resolveWhereExprs, resolveValueExprs_of_hasLiterals _ hw.1,
      resolveSubqueries_of_subqueryFree run st hw.2, hstmt]

end

/-- `exec_select`: the outcome, the statement it leaves behind, and the planner's memory. -/
def execSelect {Stats : Type} (X : Executors Stats) (ses : Session) :
    (n : Nat) → Runner (Query n) Stats
  | 0 => fun q _ => q.elim
  | n + 1 => execStep X ses (execSelect X ses n)

end Zepto.Sql
