import Zepto.Sql.PreparedCache
import Zepto.Sql.Reads

/-!
# The result cache

`CacheFresh` says that every cached result is what its `SELECT` gives on the current data, at some
time. Statements that write empty the cache first, but `CREATE TABLE`, `CREATE` and `DROP
MATERIALIZED VIEW` and tick batches leave it. In every run that takes such a step only on an empty
cache, `execute` answers what the `SELECT` gives on the current data (`execute_eq_answer`); a tick
batch between two calls makes the second one stale (`execute_after_ticks`).
-/

namespace Zepto.Sql

open Executor Zepto.Lib Zepto.Storage

/-! ## The planner's memory -/

section

variable {α β Q Stats : Type}

/-- The outcome is the same for all memories that update to the same, as is the memory left. -/
def StatsBlind (upd : Stats → Stats) (f : Stats → α × β × Stats) : Prop :=
  ∀ st st', upd st = upd st' → ∃ a b s s',
    f st = (a, b, s) ∧ f st' = (a, b, s') ∧ upd s = upd st ∧ upd s' = upd st

variable (X : Executors Stats)

def planned (db : Database) (st : Stats) : Stats := X.updateStats st db.partitions

theorem planned_planned (db : Database) (st : Stats) :
    planned X db (planned X db st) = planned X db st :=
  X.updateStats_idem _ _

/-- The two memories come to `c` once updated. -/
def Come (db : Database) (c st st' : Stats) : Prop := planned X db st = c ∧ planned X db st' = c

/-- A statement that depends on the memory looks at all partitions first. -/
theorem pairedSessions_come (ses : Session) (c : Stats) :
    PairedSessions X (Come X ses.db c) (fun _ => True) ses ses where
  env := rfl
  plan s s' h := ⟨(planned_planned X ses.db s).trans h.1, (planned_planned X ses.db s').trans h.2⟩
  named stmt s s' _ h := by
    cases hj : stmt.join with
    | none => simp [execNamed, execTable, hj]
    | some j =>
      have hplans : needsCostPlanning stmt := by simp [needsCostPlanning, hj]
      have hsame : planned X ses.db s = planned X ses.db s' := h.1.trans h.2.symm
      unfold planned at hsame
      simp [plannedFor, hplans, hsame]

theorem everyQuery_true (e : Expr Q) : EveryQuery (fun _ => True) e := by
  induction e with
  | and l r ihl ihr | or l r ihl ihr => exact ⟨ihl, ihr⟩
  | not l ih => exact ih
  | _ => trivial

theorem execSelect_come (ses : Session) (c : Stats) (n : Nat) (q : Query n) :
    Paired (Come X ses.db c) (execSelect X ses n q) (execSelect X ses n q) := by
  induction n with
  | zero => exact q.elim
  | succ n ih =>
    exact execStep_paired (pairedSessions_come X ses c) (fun q _ => ih q)
      ⟨fun e _ => everyQuery_true e, fun _ _ => trivial, fun _ _ => trivial, fun _ => trivial⟩

end

section

variable {Stats : Type} (X : Executors Stats)

theorem execSelect_statsBlind (ses : Session) (n : Nat) (q : Query n) :
    StatsBlind (planned X ses.db) (execSelect X ses n q) := by
  intro st st' h
  obtain ⟨a, b, s, s', h1, h2, hs, hs'⟩ := execSelect_come X ses _ n q st st' ⟨rfl, h.symm⟩
  exact ⟨a, b, s, s', h1, h2, hs, hs'⟩

section

variable (env : Env) (db : Database)

theorem runCtes_statsBlind (n : Nat) (defs : List (String × Query n))
    (ctes : AList fun _ : String => QueryResult) :
    StatsBlind (planned X db) (runCtes X env db n defs ctes) := by
  induction defs generalizing ctes with
  | nil => exact fun st st' h => ⟨_, _, st, st', rfl, rfl, rfl, h.symm⟩
  | cons d defs ih =>
    obtain ⟨name, q⟩ := d
    intro st st' h
    obtain ⟨o, q', s, s', hq, hq', hs, hs'⟩ :=
      execSelect_statsBlind X { env, db, ctes } n q st st' h
    simp only [runCtes, hq, hq']
    cases o with
    | error e => exact ⟨_, _, s, s', rfl, rfl, hs, hs'⟩
    | ok r =>
      simp only
      split
      · exact ⟨_, _, s, s', rfl, rfl, hs, hs'⟩
      · obtain ⟨o, defs', t, t', hd, hd', ht, ht'⟩ :=
          ih (ctes.insert name r) s s' (hs.trans hs'.symm)
        simp only [hd, hd']
        exact ⟨_, _, t, t', rfl, rfl, ht.trans hs, ht'.trans hs⟩

/-- The planner's memory shows in no result, and a run only updates it. -/
theorem runSelect_statsBlind {n : Nat} (stmt : SelectStmt (Query n))
    {st st' : Stats} (h : planned X db st = planned X db st') :
    (runSelect X env db stmt st).outcome = (runSelect X env db stmt st').outcome ∧
      planned X db (runSelect X env db stmt st).stats = planned X db st := by
  obtain ⟨o, defs, s, s', hc, hc', hs, hs'⟩ := runCtes_statsBlind X env db n stmt.cteDefs ∅ st st' h
  simp only [runSelect, hc, hc']
  cases o with
  | error o => exact ⟨rfl, hs⟩
  | ok ctes =>
    simp only
    split
    · exact ⟨rfl, hs⟩
    obtain ⟨a, b, t, t', hr, hr', ht, -⟩ := execSelect_statsBlind X { env, db, ctes } (n + 1)
      { stmt with cteDefs := defs } s s' (hs.trans hs'.symm)
    rw [hr, hr']
    exact ⟨rfl, ht.trans hs⟩

theorem answer_congr {n : Nat} (stmt : SelectStmt (Query n))
    {st st' : Stats} (h : planned X db st = planned X db st') :
    answer X env db stmt st = answer X env db stmt st' := by
  unfold answer
  rw [(runSelect_statsBlind X env db stmt h).1]

end

/-! ## What a cached result is worth -/

/-- The statement gives the same at every reading of the clock. -/
def ClockFree (db : Database) {n : Nat} (stmt : SelectStmt (Query n)) (st : Stats) : Prop :=
  ∀ env env', answer X env db stmt st = answer X env' db stmt st

/-- A text of a `SELECT` that is run, not explained. -/
def Selects (parse : String → Except String Parsed) (sql : String) {n : Nat}
    (stmt : SelectStmt (Query n)) : Prop :=
  parse sql = .ok ⟨n, .select stmt⟩ ∧ stmt.explain = false

namespace Executor

variable (parse : String → Except String Parsed)

/-- Every cached result is what its `SELECT` gives on the current data, at some time. -/
def CacheFresh (E : Executor Stats) : Prop :=
  ∀ sql entry, E.resultCache.lookup sql = some entry →
    ∀ {n : Nat} {stmt : SelectStmt (Query n)}, Selects parse sql stmt →
      ∃ env, entry.result = answer X env E.db stmt E.stats

variable {X parse}

variable {E : Executor Stats} {sql : String} {n : Nat} {stmt : SelectStmt (Query n)}

theorem cacheFresh_of_empty (h : E.resultCache = ∅) : E.CacheFresh X parse := by
  intro sql entry hlookup
  simp [h] at hlookup

/-- Fewer entries, the same data and an equivalent memory keep the cache fresh. -/
theorem CacheFresh.mono {E E' : Executor Stats} (h : E.CacheFresh X parse)
    (hcache : ∀ sql entry, E'.resultCache.lookup sql = some entry →
      E.resultCache.lookup sql = some entry)
    (hdb : E'.db = E.db) (hstats : planned X E.db E'.stats = planned X E.db E.stats) :
    E'.CacheFresh X parse := by
  intro sql entry hlookup n stmt hsel
  obtain ⟨env, henv⟩ := h sql entry (hcache sql entry hlookup) hsel
  exact ⟨env, by rw [henv, hdb, answer_congr X env E.db stmt hstats]⟩

theorem lookup_of_lookup_evictOldest {t : AList fun _ : String => CachedResult} {max : Nat}
    {entry : CachedResult} (h : (evictOldest t max).lookup sql = some entry) :
    t.lookup sql = some entry := by
  unfold evictOldest at h
  split at h
  · split at h
    · exact lookup_of_lookup_erase h
    · exact h
  · exact h

/-- Keeping a result that is right keeps the cache fresh. -/
theorem CacheFresh.storeResult {E : Executor Stats} (h : E.CacheFresh X parse) (host : Host)
    (sql : String) {r : QueryResult}
    (hr : ∀ {n : Nat} {stmt : SelectStmt (Query n)}, Selects parse sql stmt →
      ∃ env, r = answer X env E.db stmt E.stats) :
    (E.storeResult host sql r).CacheFresh X parse := by
  intro sql' entry hlookup n stmt hsel
  obtain ⟨rfl, rfl⟩ | ⟨-, hold⟩ := lookup_insert_cases hlookup
  · exact hr hsel
  · exact h sql' entry (lookup_of_lookup_evictOldest hold) hsel

/-- Running the statement of a text keeps the cache fresh. -/
theorem CacheFresh.runAndStore (h : E.CacheFresh X parse) (host : Host) (sql : String)
    (cacheable : Bool) (hstmt : cacheable → parse sql = .ok ⟨n, .select stmt⟩) :
    (runAndStore X E host sql cacheable stmt).2.2.CacheFresh X parse := by
  have hstats : planned X E.db (runSelect X host.env E.db stmt E.stats).stats =
      planned X E.db E.stats := (runSelect_statsBlind X host.env E.db stmt rfl).2
  have hran : CacheFresh X parse
      { E with stats := (runSelect X host.env E.db stmt E.stats).stats } :=
    h.mono (fun _ _ hlookup => hlookup) rfl hstats
  unfold Executor.runAndStore
  simp only
  split
  · exact hran
  rename_i r hout
  split
  next hstore =>
    simp only [Bool.and_eq_true] at hstore
    refine hran.storeResult host sql fun {m} {stmt'} hsel => ⟨host.env, ?_⟩
    have hsame := hsel.1
    rw [hstmt hstore.1.1] at hsame
    cases hsame
    rw [answer_congr X host.env E.db stmt hstats, answer, hout]
    rfl
  · exact hran

theorem CacheFresh.select (h : E.CacheFresh X parse) (host : Host) (sql : String)
    (allowCaches : Bool) (hstmt : allowCaches → parse sql = .ok ⟨n, .select stmt⟩) :
    (E.select X host sql allowCaches stmt).2.2.CacheFresh X parse := by
  unfold Executor.select
  split
  · refine h.mono (fun _ _ hlookup => hlookup) rfl ?_
    simp only [explain]
    split
    · exact planned_planned X E.db E.stats
    · rfl
  · split
    next hcacheable =>
      simp only [cacheable, Bool.and_eq_true] at hcacheable
      split
      · exact h
      · refine runAndStore ?_ host sql true fun _ => hstmt hcacheable.1.1
        exact h.mono (fun _ _ hlookup => lookup_of_lookup_erase hlookup) rfl rfl
    · exact h.runAndStore host sql false fun hfalse => by cases hfalse

theorem CacheFresh.select_fst (h : E.CacheFresh X parse) (host : Host)
    (hsel : Selects parse sql stmt) (hclock : ClockFree X E.db stmt E.stats) :
    (E.select X host sql true stmt).1 = answer X host.env E.db stmt E.stats := by
  rw [(E.select_spec X host sql true stmt).1, if_neg (by simp [hsel.2])]
  split
  · cases hcached : E.cachedResult host sql with
    | none => rfl
    | some r =>
      unfold cachedResult at hcached
      split at hcached
      next entry hlookup =>
        split at hcached
        · cases hcached
          obtain ⟨env, henv⟩ := h sql entry hlookup hsel
          simp only [henv]
          exact hclock env host.env
        · cases hcached
      · cases hcached
  · rfl

end Executor

/-! ## Changes that leave the cache alone -/

variable {db : Database}

/-- A `CREATE TABLE` creates its table. -/
def createsTable (host : Host) (db : Database) (stmt : CreateTableStmt) : Bool :=
  host.catalogSaved && (placementError stmt).isNone &&
    match stmt.columns.mapM DdlColumnDef.toColumnDef with
    | .ok columns => (createSchema db.registry stmt.tableName columns).isSome
    | .error _ => false

theorem execCreateTable_snd {host : Host} {stmt : CreateTableStmt}
    (h : createsTable host db stmt = false) : (execCreateTable host db stmt).2 = db := by
  unfold execCreateTable
  unfold createsTable at h
  cases hcols : stmt.columns.mapM DdlColumnDef.toColumnDef with
  | error e => rfl
  | ok columns =>
    cases hplace : placementError stmt with
    | some e => rfl
    | none =>
      cases hschema : createSchema db.registry stmt.tableName columns with
      | none =>
        simp only [hschema]
        split <;> rfl
      | some registry =>
        have hsaved : ¬host.catalogSaved := fun hsaved => by
          simp [hcols, hplace, hschema, hsaved] at h
        simp [hschema, if_neg hsaved]

/-- A `CREATE MATERIALIZED VIEW` creates its view. -/
def createsView {Q : Type} (db : Database) (stmt : CreateMVStmt Q) : Bool :=
  (db.views.lookup stmt.viewName).isNone && !(viewDefinition stmt.query).columns.isEmpty

theorem execCreateMV_snd {Q : Type} {stmt : CreateMVStmt Q} (h : createsView db stmt = false) :
    (execCreateMV db stmt).2 = db := by
  unfold execCreateMV
  unfold createsView at h
  split
  · rfl
  rename_i hview
  split
  · rfl
  next hcols =>
    simp at h
    simp [h (by simpa using hview)] at hcols

/-- The statement changes the data and does not empty the result cache. -/
def changesQuietly {Q : Type} (host : Host) (db : Database) : Statement Q → Bool
  | .createTable s => createsTable host db s
  | .createMV s => createsView db s
  | .dropMV s => (db.views.lookup s.viewName).isSome
  | _ => false

def storesTicks (db : Database) (table : String) (ticks : List TickMessage) : Bool :=
  !ticks.isEmpty && (table = "" || db.registry.getTableId table ≠ 0)

theorem ingestTickBatch_snd (host : Host) {table : String} {ticks : List TickMessage}
    (h : storesTicks db table ticks = false) : (ingestTickBatch host db table ticks).2 = db := by
  unfold ingestTickBatch
  split
  · rfl
  split
  · rfl
  rename_i hid
  unfold storesTicks at h
  have hticks : ticks = [] := by
    by_contra hne
    by_cases htable : table = ""
    · simp [htable, hne] at h
    · simp [htable, hne] at h
      exact hid ⟨htable, h⟩
  subst hticks
  simp [storeTicks, storeOrder, pushTicks, Ingestion.RingBuffer.ready_of_tryPop host.queue.2]

namespace Executor

variable {X} {parse : String → Except String Parsed} {E : Executor Stats}

/-- A step that changes the data quietly finds the cache empty. -/
theorem CacheFresh.finish (h : E.CacheFresh X parse)
    (r : Except String QueryResult × Database) (hr : E.resultCache = ∅ ∨ r.2 = E.db) :
    (E.finish r).2.CacheFresh X parse := by
  rcases hr with hempty | hdb
  · exact cacheFresh_of_empty hempty
  · exact h.mono (fun _ _ hlookup => hlookup) hdb rfl

theorem CacheFresh.run (h : E.CacheFresh X parse) (host : Host)
    (sql : String) (allowCaches : Bool) {n : Nat} {stmt : Statement (Query n)}
    (hstmt : allowCaches → parse sql = .ok ⟨n, stmt⟩)
    (hquiet : E.resultCache = ∅ ∨ changesQuietly host E.db stmt = false) :
    (E.run X host sql allowCaches stmt).2.2.CacheFresh X parse := by
  cases stmt with
  | select s => exact h.select host sql allowCaches hstmt
  | createTable s => exact h.finish _ (hquiet.imp_right execCreateTable_snd)
  | createMV s => exact h.finish _ (hquiet.imp_right execCreateMV_snd)
  | dropMV s =>
    refine h.finish _ (hquiet.imp_right fun hnone => ?_)
    have hno : (E.db.views.lookup s.viewName).isSome = false := hnone
    simp [execDropMV, hno]
  | showTables | describeTable name => exact h.finish _ (.inr rfl)
  | _ => exact cacheFresh_of_empty rfl

variable {E : Executor Stats} {sql : String} {ps : Parsed}

variable (parse) in
/-- No run has overwritten the cached tree of the text, or none can. -/
def TreeOk (E : Executor Stats) (sql : String) : Prop :=
  (∀ ps, E.stmtCache.lookup sql = some ps → parse sql = .ok ps) ∨ settledText parse sql = true

theorem TreeOk.parse_eq (hok : E.PreparedOk parse) (h : E.TreeOk parse sql)
    (hps : E.stmtCache.lookup sql = some ps) : parse sql = .ok ps :=
  h.elim (fun hintact => hintact ps hps) (fun hsettled => hok sql ps hps hsettled)

section

variable (h : E.CacheFresh X parse)

include h

theorem CacheFresh.runPrepared (host : Host) (hps : parse sql = .ok ps)
    (hquiet : E.resultCache = ∅ ∨ changesQuietly host E.db ps.2 = false) :
    (E.runPrepared X host sql ps).2.CacheFresh X parse := by
  have hrun := h.run host sql true (fun _ => hps) hquiet
  unfold Executor.runPrepared
  split
  · exact hrun.mono (fun _ _ hlookup => hlookup) rfl rfl
  · exact hrun

theorem CacheFresh.prepare (sql : String) (ps : Parsed) :
    (E.prepare sql ps).CacheFresh X parse := by
  unfold Executor.prepare
  split
  · exact h.mono (fun _ _ hlookup => hlookup) rfl rfl
  · exact h

theorem CacheFresh.execute
    (hok : E.PreparedOk parse) (host : Host) {sql : String} (htree : E.TreeOk parse sql)
    (hquiet : E.resultCache = ∅ ∨
      ∀ ps, parse sql = .ok ps → changesQuietly host E.db ps.2 = false) :
    (E.execute X parse host sql).2.CacheFresh X parse := by
  unfold Executor.execute
  split
  next ps hlookup =>
    have hps := htree.parse_eq hok hlookup
    exact h.runPrepared host hps (hquiet.imp_right fun hq => hq ps hps)
  split
  · exact h
  next ps hps =>
    refine (h.prepare sql ps).runPrepared host hps ?_
    unfold Executor.prepare
    split <;> exact hquiet.imp_right fun hq => hq ps hps

end

end Executor

/-! ## Runs -/

/-- The call runs no overwritten tree, and if it changes the data without emptying the result cache,
that is empty. -/
def CallOk (parse : String → Except String Parsed) (E : Executor Stats) : ExecutorCall → Prop
  | .execute host sql => E.TreeOk parse sql ∧ (E.resultCache = ∅ ∨
      ∀ ps, parse sql = .ok ps → changesQuietly host E.db ps.2 = false)
  | .executeParsed host _ ps => E.resultCache = ∅ ∨ changesQuietly host E.db ps.2 = false
  | .ingestTickBatch _ table ticks => E.resultCache = ∅ ∨ storesTicks E.db table ticks = false
  | .dataChange _ => E.resultCache = ∅
  | _ => True

theorem cacheFresh_step {parse : String → Except String Parsed} (E : Executor Stats)
    (call : ExecutorCall) (h : E.PreparedOk parse ∧ E.CacheFresh X parse)
    (hcall : CallOk parse E call) :
    ((executorMachine X parse).step E call).2.PreparedOk parse ∧
      ((executorMachine X parse).step E call).2.CacheFresh X parse := by
  refine ⟨preparedOk_step X E call h.1, ?_⟩
  cases call with
  | execute host sql => exact h.2.execute h.1 host hcall.1 hcall.2
  | executeParsed host sql ps => exact h.2.run host sql false (fun hf => by cases hf) hcall
  | ingestTickBatch host table ticks =>
    rcases hcall with hempty | hstores
    · exact cacheFresh_of_empty hempty
    · exact h.2.mono (fun _ _ hlookup => hlookup) (ingestTickBatch_snd host hstores) rfl
  | cachePrepared sql =>
    simp only [executorMachine, cachePrepared]
    split
    · exact h.2
    · split
      · exact h.2.mono (fun _ _ hlookup => hlookup) rfl rfl
      · exact h.2.prepare _ _
  | clearPreparedCache
  | enableResultCache max ttl => exact h.2.mono (fun _ _ hlookup => hlookup) rfl rfl
  | disableResultCache | invalidateResultCache => exact cacheFresh_of_empty rfl
  | dataChange db => exact cacheFresh_of_empty hcall

/-- In every run of such calls, a `SELECT` that does not depend on the clock is answered with what
it gives on the current data. -/
theorem execute_eq_answer (parse : String → Except String Parsed) (E : Executor Stats)
    (hstmt : E.stmtCache = ∅) (hresult : E.resultCache = ∅) (calls : List ExecutorCall)
    (hcalls : (executorMachine X parse).Admits (CallOk parse) E calls) (host : Host)
    (sql : String) (hsql : ((executorMachine X parse).run E calls).TreeOk parse sql)
    {n : Nat} (stmt : SelectStmt (Query n)) (hsel : Selects parse sql stmt)
    (hclock : ClockFree X ((executorMachine X parse).run E calls).db stmt
      ((executorMachine X parse).run E calls).stats) :
    (((executorMachine X parse).run E calls).execute X parse host sql).1 =
      answer X host.env ((executorMachine X parse).run E calls).db stmt
        ((executorMachine X parse).run E calls).stats := by
  have hinit : E.PreparedOk parse := by
    intro sql ps hlookup
    simp [hstmt] at hlookup
  obtain ⟨hok, hfresh⟩ := (executorMachine X parse).invariant_admits
    (P := fun E => E.PreparedOk parse ∧ E.CacheFresh X parse) (cacheFresh_step X)
    ⟨hinit, cacheFresh_of_empty hresult⟩ hcalls
  rw [execute_fst_of_intact X host fun ps hps => hsql.parse_eq hok hps, freshResult, hsel.1]
  exact hfresh.select_fst host hsel hclock

end

/-! ## A tick between two calls -/

/-- `SELECT price FROM trades`. -/
def selectPrices : SelectStmt (Query 0) where
  columns := [{ column := "price" }]
  fromTable := "trades"

/-- The executor over one price with the result cache on. -/
def cachingExecutor : Executor Unit := { onePriceExecutor with resultCacheMax := 128 }

/-- `UPDATE trades SET price = 7`. -/
def setSeven : Parsed := ⟨0, .update { tableName := "trades", assignments := [⟨"price", 7⟩] }⟩

/-- An `UPDATE` between two calls empties the cache; the second has the new price. -/
theorem execute_after_update :
    let E := (executorMachine idleExecutors (parsesTo selectPrices)).run cachingExecutor
      [.execute { env := ⟨0⟩ } "q", .executeParsed { env := ⟨0⟩ } "u" setSeven]
    (answer idleExecutors ⟨1⟩ E.db selectPrices E.stats).rows = [[7]] ∧
      (E.execute idleExecutors (parsesTo selectPrices) { env := ⟨1⟩ } "q").1 =
        answer idleExecutors ⟨1⟩ E.db selectPrices E.stats :=
  ⟨by decide +kernel, execute_eq_answer idleExecutors
    (parsesTo selectPrices) cachingExecutor rfl rfl
    [.execute { env := ⟨0⟩ } "q", .executeParsed { env := ⟨0⟩ } "u" setSeven]
    ⟨⟨.inr rfl, .inl rfl⟩, .inr rfl, trivial⟩ { env := ⟨1⟩ } "q" (.inr rfl) selectPrices ⟨rfl, rfl⟩
    fun _ _ => rfl⟩

/-- A tick is stored after the first call; the second answers without it. -/
theorem execute_after_ticks :
    let E := (executorMachine idleExecutors (parsesTo selectPrices)).run cachingExecutor
      [.execute { env := ⟨0⟩ } "q", .ingestTickBatch { env := ⟨0⟩ } "trades"
          [{ recvTs := 0, symbolId := 2, price := 7, volume := 1 }]]
    (E.execute idleExecutors (parsesTo selectPrices) { env := ⟨0⟩ } "q").1.rows = [[0]] ∧
    (answer idleExecutors ⟨0⟩ E.db selectPrices E.stats).rows = [[0], [7]] := by
  decide +kernel

end Zepto.Sql
