import Zepto.Lib.Stream
import Zepto.Sql.Execute

/-!
# Access to SQL over HTTP

The server parses a request, asks for the permission of its kind of statement, and checks every
table name it finds in the tree against the allowed tables and the tenant's namespace
(`authorizeSql`). `collectSelect` finds the names after `FROM` and `JOIN` that are no common table
expression in scope. What gets through is executed with a bound on its rows, and the answer to `SHOW
TABLES` is filtered (`respond`).
-/

namespace Zepto.Server

open Zepto.Lib Zepto.Storage Zepto.Sql

inductive Permission where
  | read
  | write
  | admin
  | metrics
  deriving DecidableEq

inductive Role where
  | admin
  | writer
  | reader
  | analyst
  | metrics
  | unknown
  deriving DecidableEq

def rolePermissions : Role → List Permission
  | .admin => [.read, .write, .admin, .metrics]
  | .writer => [.read, .write, .metrics]
  | .reader => [.read]
  | .analyst => []
  | .metrics => [.metrics]
  | .unknown => []

structure Request where
  authEnforced : Bool := true
  role : Role
  allowedSymbols : String := ""
  /-- The allowed tables, separated by commas; empty for all. -/
  allowedTables : String := ""
  /-- The names the tenant may use, if the request is a tenant's. -/
  tenantTables : Option (String → Bool) := none

inductive SqlTableAccess where
  | allowed
  | tableAclDenied
  | tenantDenied
  deriving DecidableEq

/-- The pieces between commas as `std::getline` gives them. -/
def headerFields : List Char → List (List Char)
  | [] => []
  | ',' :: cs => [] :: headerFields cs
  | c :: cs =>
    match headerFields cs with
    | [] => [[c]]
    | field :: fields => (c :: field) :: fields

def sqlTableAccess (req : Request) (table : String) : SqlTableAccess :=
  if req.allowedTables ≠ "" ∧ table.toList ∉ headerFields req.allowedTables.toList then
    .tableAclDenied
  else if req.tenantTables.any fun allows => !allows table then .tenantDenied
  else .allowed

def Request.allows (req : Request) (table : String) : Bool := sqlTableAccess req table = .allowed

def sqlStatementPermission {Q : Type} : Statement Q → Option Permission
  | .select _ | .showTables => some .read
  | .describeTable name => if name ≠ "" then some .read else none
  | .insert _ | .update _ | .delete _ => some .write
  | .createTable _ | .dropTable _ | .alterTable _ | .createMV _ | .dropMV _ => some .admin

/-! ## The names of a statement -/

def appendUniqueTable (tables : List String) (table : String) : List String :=
  if table = "" ∨ table ∈ tables then tables else tables ++ [table]

section

variable {Q : Type} (collect : Q → List String → List String)

/-- `collect_expr_tables`. -/
def collectExpr : Expr Q → List String → List String
  | .and l r, tables | .or l r, tables => collectExpr r (collectExpr l tables)
  | .not l, tables => collectExpr l tables
  | .scalarSubquery _ _ _ q, tables | .inSubquery _ _ q, tables => collect q tables
  | _, tables => tables

def collectOption {α : Type} (f : α → List String → List String) (x : Option α)
    (tables : List String) : List String :=
  match x with
  | some a => f a tables
  | none => tables

def collectList {α : Type} (f : α → List String → List String) (xs : List α)
    (tables : List String) : List String :=
  xs.foldl (fun tables a => f a tables) tables

/-- A name that is not in scope as a common table expression. -/
def collectName (scope : List String) (name : String) (tables : List String) : List String :=
  if name ∈ scope then tables else appendUniqueTable tables name

/-- The part of `collect_select_tables` after the common table expressions. -/
def collectBody (scope : List String) (stmt : SelectStmt Q) (tables : List String) :
    List String :=
  let tables := collectName scope stmt.fromTable tables
  let tables := collectOption (fun j : JoinClause => collectName scope j.table) stmt.join tables
  let tables := collectOption collect stmt.fromSubquery tables
  let tables := collectOption collect stmt.rhs tables
  let tables := collectOption (collectExpr collect) stmt.whereClause tables
  let tables := collectOption (collectExpr collect) stmt.having tables
  collectList (fun col => collectOption (fun cw : CaseWhen Q =>
    collectList (fun b => collectExpr collect b.1) cw.branches) col.caseWhen) stmt.columns tables

end

/-- The common table expressions, each in the scope of those before it: the names collected and the
scope. -/
def collectCtes {Q : Type} (collect : List String → Q → List String → List String) :
    List (String × Q) → List String → List String → List String × List String
  | [], scope, tables => (tables, scope)
  | (name, q) :: rest, scope, tables =>
    collectCtes collect rest (name :: scope) (collect scope q tables)

/-- `collect_select_tables`. -/
def collectSelect : (n : Nat) → List String → Query n → List String → List String
  | 0 => fun _ q _ => q.elim
  | n + 1 => fun scope (stmt : SelectStmt (Query n)) tables =>
    let ctes := collectCtes (collectSelect n) stmt.cteDefs scope tables
    collectBody (collectSelect n ctes.2) ctes.2 stmt ctes.1

def sqlStatementTables {n : Nat} : Statement (Query n) → List String
  | .select s => collectSelect (n + 1) [] s []
  | .insert s => appendUniqueTable [] s.tableName
  | .update s =>
    collectOption (collectExpr (collectSelect n [])) s.whereClause
      (appendUniqueTable [] s.tableName)
  | .delete s =>
    collectOption (collectExpr (collectSelect n [])) s.whereClause
      (appendUniqueTable [] s.tableName)
  | .createTable s | .dropTable s | .alterTable s => appendUniqueTable [] s.tableName
  | .createMV s => collectSelect (n + 1) [] s.query (appendUniqueTable [] s.viewName)
  | .dropMV s => appendUniqueTable [] s.viewName
  | .showTables => []
  | .describeTable name => appendUniqueTable [] name

/-- `authorize_sql` on a text that could be parsed. -/
def authorizeSql {n : Nat} (req : Request) (stmt : Statement (Query n)) : Bool :=
  req.allowedSymbols = "" &&
    (!req.authEnforced ||
      (sqlStatementPermission stmt).any fun p => p ∈ rolePermissions req.role) &&
    (sqlStatementTables stmt).all req.allows

/-- `bound_top_level_select_result`: one row more than allowed, to notice an answer that is too
large. -/
def boundTopLevelSelect {n : Nat} (maxRows : Nat) : Statement (Query n) → Statement (Query n)
  | .select s =>
    let bound : Int := min (maxRows + 1) int64Max
    .select (if s.limit.any fun l => l ≤ bound then s else { s with limit := some bound })
  | stmt => stmt

def filterShowTables (req : Request) (r : QueryResult) : QueryResult :=
  if r.stringRows.length ≠ r.rows.length then
    { r with stringRows := [], rows := [], typedRows := [] }
  else
    let visible := (r.stringRows.zip r.rows).filter fun e => req.allows e.1
    { r with
      stringRows := visible.map Prod.fst
      rows := visible.map Prod.snd
      typedRows := ((r.stringRows.zip r.typedRows).filter fun e => req.allows e.1).map Prod.snd }

def respond {Stats : Type} (X : Executors Stats) (req : Request) (host : Host) (maxRows : Nat)
    (E : Executor Stats) (sql : String) {n : Nat} (stmt : Statement (Query n)) : QueryResult :=
  let r := (E.executeParsed X host sql ⟨n, boundTopLevelSelect maxRows stmt⟩).1
  match stmt with
  | .showTables => filterShowTables req r
  | _ => r

end Zepto.Server
