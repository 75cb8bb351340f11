import Zepto.Lib.Machine
import Zepto.Sql.Insert
import Zepto.Sql.MvRewrite

/-!
# The executor

`execute_impl` with its two caches. The prepared-statement cache keeps the tree of a text; a run
works on a copy that shares the nodes, so what it writes into them stays in the cache. The result
cache keeps the answers of `SELECT` texts until they expire or a statement that writes empties it.
The parser is a parameter. `executorMachine` answers the calls of an executor.
-/

namespace Zepto.Sql

open Zepto.Lib Zepto.Storage

/-- A parsed statement with the depth its queries nest to. -/
abbrev Parsed := (n : Nat) × Statement (Query n)

structure CachedResult where
  result : QueryResult
  expireTime : Float

structure Executor (Stats : Type) where
  db : Database
  stats : Stats
  stmtCache : AList (fun _ : String => Parsed) := ∅
  resultCache : AList (fun _ : String => CachedResult) := ∅
  /-- The number of results kept; 0 turns the result cache off. -/
  resultCacheMax : Nat := 0
  resultCacheTtl : Float := doubleOfInt 5

section

variable {Stats : Type} (X : Executors Stats)

/-! ## Running a SELECT -/

/-- What running a `SELECT` comes to. -/
structure SelectRun (n : Nat) (Stats : Type) where
  outcome : Except String QueryResult
  /-- It went all the way through `exec_select`. -/
  storable : Bool
  /-- The statement it leaves behind. -/
  stmt : SelectStmt (Query n)
  stats : Stats

/-- The common table expressions, each with the results of those before; the first that fails is the
answer. -/
def runCtes (env : Env) (db : Database) (n : Nat) :
    List (String × Query n) → AList (fun _ : String => QueryResult) → Stats →
    Except (Except String QueryResult) (AList fun _ : String => QueryResult) ×
      List (String × Query n) × Stats
  | [], ctes, st => (.ok ctes, [], st)
  | (name, q) :: rest, ctes, st =>
    match execSelect X { env, db, ctes } n q st with
    | (.error e, q, st) => (.error (.error e), (name, q) :: rest, st)
    | (.ok r, q, st) =>
      if !r.ok then (.error (.ok r), (name, q) :: rest, st)
      else
        let others := runCtes env db n rest (ctes.insert name r) st
        (others.1, (name, q) :: others.2.1, others.2.2)

/-- A `SELECT` past the result cache: common table expressions, a matching view, `exec_select`. -/
def runSelect (env : Env) (db : Database) {n : Nat} (stmt : SelectStmt (Query n)) (st : Stats) :
    SelectRun n Stats :=
  match runCtes X env db n stmt.cteDefs ∅ st with
  | (.error outcome, defs, st) =>
    { outcome, storable := false, stmt := { stmt with cteDefs := defs }, stats := st }
  | (.ok ctes, defs, st) =>
    let stmt := { stmt with cteDefs := defs }
    match tryRewrite stmt db.views with
    | some view =>
      { outcome := .ok (rewriteResult stmt view), storable := false, stmt, stats := st }
    | none =>
      let r := execSelect X { env, db, ctes } (n + 1) stmt st
      { outcome := r.1, storable := true, stmt := r.2.1, stats := r.2.2 }

def toResult : Except String QueryResult → QueryResult
  | .ok r => r
  | .error e => .failed e

/-- What a `SELECT` gives on a database, with no cache. -/
def answer (env : Env) (db : Database) {n : Nat} (stmt : SelectStmt (Query n)) (st : Stats) :
    QueryResult :=
  toResult (runSelect X env db stmt st).outcome

/-! ## The result cache -/

def steadySeconds (host : Host) : Float := doubleOfInt host.steadyMs / doubleOfInt 1000

def oldestEntry : List ((_ : String) × CachedResult) → Option ((_ : String) × CachedResult)
  | [] => none
  | e :: es => some (es.foldl (fun o e => if e.2.expireTime < o.2.expireTime then e else o) e)

def evictOldest (cache : AList fun _ : String => CachedResult) (max : Nat) :
    AList fun _ : String => CachedResult :=
  if cache.entries.length ≥ max then
    match oldestEntry cache.entries with
    | some e => cache.erase e.1
    | none => cache
  else cache

namespace Executor

/-- Results of this statement go through the result cache. -/
def cacheable {n : Nat} (E : Executor Stats) (allowCaches : Bool) (stmt : SelectStmt (Query n)) :
    Bool :=
  allowCaches && 0 < E.resultCacheMax && stmt.cteDefs.isEmpty

def cachedResult (E : Executor Stats) (host : Host) (sql : String) : Option QueryResult :=
  match E.resultCache.lookup sql with
  | some entry => if steadySeconds host < entry.expireTime then some entry.result else none
  | none => none

def storeResult (E : Executor Stats) (host : Host) (sql : String) (r : QueryResult) :
    Executor Stats :=
  { E with
    resultCache := (evictOldest E.resultCache E.resultCacheMax).insert sql
      { result := r, expireTime := steadySeconds host + E.resultCacheTtl } }

def explain {n : Nat} (E : Executor Stats) (stmt : SelectStmt (Query n)) :
    QueryResult × Executor Stats :=
  let stats := if needsCostPlanning stmt then X.updateStats E.stats E.db.partitions else E.stats
  (toResult (X.explain stats stmt E.db), { E with stats })

/-- Run a `SELECT` and keep its result if it may be kept. -/
def runAndStore {n : Nat} (E : Executor Stats) (host : Host) (sql : String) (cacheable : Bool)
    (stmt : SelectStmt (Query n)) : QueryResult × SelectStmt (Query n) × Executor Stats :=
  let run := runSelect X host.env E.db stmt E.stats
  let E := { E with stats := run.stats }
  match run.outcome with
  | .error e => (.failed e, run.stmt, E)
  | .ok r =>
    (r, run.stmt, if cacheable && run.storable && r.ok then E.storeResult host sql r else E)

/-- The `SELECT` path of `execute_impl`, with the statement left behind. -/
def select {n : Nat} (E : Executor Stats) (host : Host) (sql : String) (allowCaches : Bool)
    (stmt : SelectStmt (Query n)) : QueryResult × SelectStmt (Query n) × Executor Stats :=
  if stmt.explain then ((E.explain X stmt).1, stmt, (E.explain X stmt).2)
  else if E.cacheable allowCaches stmt then
    match E.cachedResult host sql with
    | some r => (r, stmt, E)
    | none =>
      runAndStore X { E with resultCache := E.resultCache.erase sql } host sql true stmt
  else runAndStore X E host sql false stmt

theorem runAndStore_eq {n : Nat} (E : Executor Stats) (host : Host) (sql : String)
    (cacheable : Bool)
    (stmt : SelectStmt (Query n)) :
    let r := runSelect X host.env E.db stmt E.stats
    ∃ cache, runAndStore X E host sql cacheable stmt = (answer X host.env E.db stmt E.stats, r.stmt,
        { E with stats := r.stats, resultCache := cache }) := by
  unfold runAndStore answer
  simp only
  split <;> rename_i hout <;> rw [hout]
  · exact ⟨_, rfl⟩
  · split <;> exact ⟨_, rfl⟩

/-- A `SELECT` is explained, answered from the cache, or run. -/
theorem select_spec {n : Nat} (E : Executor Stats) (host : Host) (sql : String)
    (allowCaches : Bool) (stmt : SelectStmt (Query n)) :
    let r := E.select X host sql allowCaches stmt
    let a := answer X host.env E.db stmt E.stats
    r.1 = (if stmt.explain then (E.explain X stmt).1
      else if E.cacheable allowCaches stmt then (E.cachedResult host sql).getD a else a) ∧
    (r.2.1 = stmt ∨ stmt.explain = false ∧ r.2.1 = (runSelect X host.env E.db stmt E.stats).stmt) ∧
    r.2.2.stmtCache = E.stmtCache := by
  unfold select
  split
  · exact ⟨rfl, .inl rfl, rfl⟩
  rename_i hexplain
  have hexplain : stmt.explain = false := Bool.eq_false_of_not_eq_true hexplain
  split
  · cases E.cachedResult host sql with
    | some a => exact ⟨rfl, .inl rfl, rfl⟩
    | none =>
      obtain ⟨cache, heq⟩ :=
        runAndStore_eq X { E with resultCache := E.resultCache.erase sql } host sql true stmt
      rw [heq]
      exact ⟨rfl, .inr ⟨hexplain, rfl⟩, rfl⟩
  · obtain ⟨cache, heq⟩ := runAndStore_eq X E host sql false stmt
    rw [heq]
    exact ⟨rfl, .inr ⟨hexplain, rfl⟩, rfl⟩
/-- `invalidate_result_cache` empties the cache, whatever the table. -/
def invalidateResultCache (E : Executor Stats) : Executor Stats := { E with resultCache := ∅ }

/-- The executor after a statement that left the database `db`. -/
def finish (E : Executor Stats) (r : Except String QueryResult × Database) :
    QueryResult × Executor Stats :=
  (toResult r.1, { E with db := r.2 })

/-- `execute_impl` on a parsed statement, with the statement left behind. -/
def run {n : Nat} (E : Executor Stats) (host : Host) (sql : String) (allowCaches : Bool)
    (stmt : Statement (Query n)) : QueryResult × Statement (Query n) × Executor Stats :=
  let done (E : Executor Stats) (r : Except String QueryResult × Database) :=
    ((E.finish r).1, stmt, (E.finish r).2)
  match stmt with
  | .createTable s => done E (execCreateTable host E.db s)
  | .dropTable s => done E.invalidateResultCache (execDropTable host E.db s)
  | .alterTable s => done E.invalidateResultCache (execAlterTable host E.db s)
  | .insert s =>
    done E.invalidateResultCache (.ok (execInsert host E.db s).1, (execInsert host E.db s).2)
  | .update s => done E.invalidateResultCache (execUpdate host.env E.db s)
  | .delete s => done E.invalidateResultCache (execDelete host.env E.db s)
  | .createMV s => done E (.ok (execCreateMV E.db s).1, (execCreateMV E.db s).2)
  | .dropMV s => done E (.ok (execDropMV E.db s).1, (execDropMV E.db s).2)
  | .showTables => done E (.ok (showTables E.db), E.db)
  | .describeTable name => done E (.ok (describeTable E.db name), E.db)
  | .select s =>
    let r := E.select X host sql allowCaches s
    (r.1, .select r.2.1, r.2.2)

/-! ## The prepared-statement cache -/

/-- Run the tree of a text and leave in the cache what the run made of it. -/
def runPrepared (E : Executor Stats) (host : Host) (sql : String) (ps : Parsed) :
    QueryResult × Executor Stats :=
  let r := E.run X host sql true ps.2
  (r.1,
    if (E.stmtCache.lookup sql).isSome then
      { r.2.2 with stmtCache := r.2.2.stmtCache.insert sql ⟨ps.1, r.2.1⟩ }
    else r.2.2)

/-- Put a tree into the prepared-statement cache if there is room. -/
def prepare (E : Executor Stats) (sql : String) (ps : Parsed) : Executor Stats :=
  if E.stmtCache.entries.length < 4096 then
    { E with stmtCache := E.stmtCache.insert sql ps }
  else E

variable (parse : String → Except String Parsed)

def execute (E : Executor Stats) (host : Host) (sql : String) : QueryResult × Executor Stats :=
  match E.stmtCache.lookup sql with
  | some ps => E.runPrepared X host sql ps
  | none =>
    match parse sql with
    | .error e => (.failed e, E)
    | .ok ps => (E.prepare sql ps).runPrepared X host sql ps

/-- `execute_parsed`: the tree comes with the request, past the caches. -/
def executeParsed (E : Executor Stats) (host : Host) (sql : String) (ps : Parsed) :
    QueryResult × Executor Stats :=
  ((E.run X host sql false ps.2).1, (E.run X host sql false ps.2).2.2)

/-- `cache_prepared` with the tree the parser makes of the text. -/
def cachePrepared (E : Executor Stats) (sql : String) : Executor Stats :=
  match parse sql with
  | .error _ => E
  | .ok ps =>
    if (E.stmtCache.lookup sql).isSome then { E with stmtCache := E.stmtCache.insert sql ps }
    else E.prepare sql ps

end Executor

/-! ## Calls -/

/-- A call of a member function, with the process around it at that moment. -/
inductive ExecutorCall where
  | execute (host : Host) (sql : String)
  | executeParsed (host : Host) (sql : String) (ps : Parsed)
  | ingestTickBatch (host : Host) (table : String) (ticks : List TickMessage)
  | cachePrepared (sql : String)
  | clearPreparedCache
  | enableResultCache (max : Nat) (ttl : Float)
  | disableResultCache
  | invalidateResultCache
  /-- Another component leaves the data changed. -/
  | dataChange (db : Database)

inductive ExecutorAnswer where
  | unit
  | result (r : QueryResult)
  | batch (r : TickBatchIngestResult)

variable (parse : String → Except String Parsed)

def executorMachine : Machine (Executor Stats) ExecutorCall ExecutorAnswer where
  step E
    | .execute host sql => (.result (E.execute X parse host sql).1, (E.execute X parse host sql).2)
    | .executeParsed host sql ps =>
      (.result (E.executeParsed X host sql ps).1, (E.executeParsed X host sql ps).2)
    | .ingestTickBatch host table ticks =>
      (.batch (ingestTickBatch host E.db table ticks).1,
        { E with db := (ingestTickBatch host E.db table ticks).2 })
    | .cachePrepared sql => (.unit, E.cachePrepared parse sql)
    | .clearPreparedCache => (.unit, { E with stmtCache := ∅ })
    | .enableResultCache max ttl => (.unit, { E with resultCacheMax := max, resultCacheTtl := ttl })
    | .disableResultCache => (.unit, { E with resultCacheMax := 0, resultCache := ∅ })
    | .invalidateResultCache => (.unit, E.invalidateResultCache)
    | .dataChange db => (.unit, { E with db })

end

end Zepto.Sql
