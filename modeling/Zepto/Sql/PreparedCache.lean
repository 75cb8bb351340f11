import Zepto.Lib.Grouping
import Zepto.Sql.Execute

/-!
# The prepared-statement cache

Running a `SELECT` overwrites the nodes of its clock expressions and subqueries with literals, and
the cache shares these nodes. A statement without such nodes is `settled`: its cached tree stays the
one the parser builds, and `execute` answers as if the text were parsed afresh (`execute_eq_fresh`);
a text that compares with the clock keeps the time of its first run (`execute_now_twice`).
-/

namespace Zepto.Sql

open Zepto.Lib Zepto.Storage Executor SelectStmt

section

variable {Q : Type}

/-- A run overwrites nothing in the statement or in a query it runs. -/
def SelectStmt.settled (inner : Q → Bool) (stmt : SelectStmt Q) : Bool :=
  stmt.whereClause.all (fun e => e.hasLiterals && e.subqueryFree) &&
    stmt.having.all Expr.hasLiterals && stmt.fromSubquery.all inner && stmt.rhs.all inner

end

def Query.settled : (n : Nat) → Query n → Bool
  | 0 => fun q => q.elim
  | n + 1 => SelectStmt.settled (settled n)

def Statement.settled {n : Nat} : Statement (Query n) → Bool
  | .select s =>
    s.explain || (s.settled (Query.settled n) && s.cteDefs.all fun d => Query.settled n d.2)
  | _ => true

def settledText (parse : String → Except String Parsed) (sql : String) : Bool :=
  match parse sql with
  | .ok ps => ps.2.settled
  | .error _ => true

/-! ## What a run leaves behind -/

section

variable {Q Stats : Type} {X : Executors Stats} {ses : Session} {run : Runner Q Stats}
  {stmt : SelectStmt Q}

/-- The nested queries come out of `run` as they went in. -/
def Leaves (run : Runner Q Stats) (inner : Q → Bool) : Prop :=
  ∀ q st, inner q = true → (run q st).2.1 = q

theorem exists_eq_of_left {α β γ : Type} {x : α × β × γ} {b : β} (h : x.2.1 = b) :
    ∃ a c, x = (a, b, c) :=
  ⟨x.1, x.2.2, h ▸ rfl⟩

variable {inner : Q → Bool}

theorem prepare_of_settled (X : Executors Stats) (ses : Session) (run : Runner Q Stats)
    (st : Stats) (h : stmt.settled inner) :
    prepare X ses run stmt st =
      (none, stmt, if needsCostPlanning stmt then X.updateStats st ses.db.partitions else st) := by
  simp only [settled, Bool.and_eq_true] at h
  exact prepare_eq X ses run st h.1.1.1 h.1.1.2

theorem execBody_leaves (hrun : Leaves run inner) (h : stmt.fromSubquery.all inner)
    (st : Stats) : (execBody X ses run stmt st).2.1 = stmt := by
  unfold execBody
  cases hsub : stmt.fromSubquery with
  | none => rfl
  | some q =>
    obtain ⟨a, st', hq⟩ := exists_eq_of_left (hrun q st (by simpa [hsub] using h))
    simp only [hq]
    cases a with
    | error e => simp [← hsub]
    | ok sub =>
      simp only
      split <;> simp [← hsub]

section

variable (hrun : Leaves run inner) (h : stmt.settled inner = true)

include hrun h

theorem execNoSet_leaves (st : Stats) : (execNoSet X ses run stmt st).2.1 = stmt := by
  unfold execNoSet
  rw [prepare_of_settled X ses run st h]
  simp only [settled, Bool.and_eq_true] at h
  exact execBody_leaves hrun h.1.2 _

theorem execSetOp_leaves {rhs : Q} (hrhs : stmt.rhs = some rhs) (st : Stats) :
    (execSetOp X ses run stmt rhs st).2.1 = stmt := by
  simp only [settled, Bool.and_eq_true, hrhs] at h
  have hsettled : settled inner { stmt with setOp := .none, rhs := none } := by
    simpa [settled] using h.1
  obtain ⟨a, st', hleft⟩ :=
    exists_eq_of_left (x := execNoSet X ses run _ st) (execNoSet_leaves hrun hsettled st)
  obtain ⟨b, st'', hright⟩ := exists_eq_of_left (hrun rhs st' h.2)
  simp only [execSetOp, hleft]
  cases a with
  | error e => simp [← hrhs]
  | ok left =>
    simp only [hright]
    cases b <;> simp [← hrhs]

theorem execStep_leaves (st : Stats) : (execStep X ses run stmt st).2.1 = stmt := by
  have hfrom : stmt.fromSubquery.all inner := by
    simp only [settled, Bool.and_eq_true] at h
    exact h.1.2
  unfold execStep
  rw [prepare_of_settled X ses run st h]
  simp only
  split
  · exact execBody_leaves hrun hfrom _
  · exact execBody_leaves hrun hfrom _
  next hrhs _ =>
    exact execSetOp_leaves hrun h hrhs _

end

end

section

variable {Stats : Type} (X : Executors Stats)

theorem execSelect_leaves (ses : Session) (n : Nat) :
    Leaves (execSelect X ses n) (Query.settled n) := by
  induction n with
  | zero => exact fun q => q.elim
  | succ n ih => exact fun q st h => execStep_leaves ih h st

theorem runCtes_leaves (env : Env) (db : Database) (n : Nat) {defs : List (String × Query n)}
    (h : defs.all (fun d => Query.settled n d.2))
    (ctes : AList fun _ : String => QueryResult) (st : Stats) :
    (runCtes X env db n defs ctes st).2.1 = defs := by
  induction defs generalizing ctes st with
  | nil => rfl
  | cons d defs ih =>
    obtain ⟨name, q⟩ := d
    simp only [List.all_cons, Bool.and_eq_true] at h
    obtain ⟨a, st', hq⟩ := exists_eq_of_left (execSelect_leaves X { env, db, ctes } n q st h.1)
    simp only [runCtes, hq]
    cases a with
    | error e => rfl
    | ok r =>
      simp only
      split
      · rfl
      · simp [ih h.2]

theorem runSelect_leaves (env : Env) (db : Database) {n : Nat} {stmt : SelectStmt (Query n)}
    (h : stmt.settled (Query.settled n))
    (hctes : (stmt.cteDefs.all fun d => Query.settled n d.2)) (st : Stats) :
    (runSelect X env db stmt st).stmt = stmt := by
  obtain ⟨a, st', hdefs⟩ := exists_eq_of_left (runCtes_leaves X env db n hctes ∅ st)
  simp only [runSelect, hdefs]
  cases a with
  | error o => rfl
  | ok ctes =>
    simp only
    split
    · rfl
    · exact execSelect_leaves X { env, db, ctes } (n + 1) stmt st' h

namespace Executor

variable {n : Nat}

section

variable (E : Executor Stats) (host : Host) (sql : String)

include host

theorem run_leaves (allowCaches : Bool) {stmt : Statement (Query n)} (h : stmt.settled) :
    (E.run X host sql allowCaches stmt).2.1 = stmt := by
  cases stmt with
  | select s =>
    simp only [run, Statement.select.injEq]
    obtain hsame | ⟨hexplain, heq⟩ := (E.select_spec X host sql allowCaches s).2.1
    · exact hsame
    simp only [Statement.settled, hexplain, Bool.false_or, Bool.and_eq_true] at h
    rw [heq]
    exact runSelect_leaves X _ _ h.1 h.2 _
  | _ => rfl

/-! ## The cache in a run -/

theorem run_stmtCache (allowCaches : Bool) (stmt : Statement (Query n)) :
    (E.run X host sql allowCaches stmt).2.2.stmtCache = E.stmtCache := by
  cases stmt with
  | select s => exact (E.select_spec X host sql allowCaches s).2.2
  | _ => rfl

end

/-- The prepared statements do not reach the run of a parsed one. -/
theorem run_fst_stmtCache (E : Executor Stats) (cache : AList fun _ : String => Parsed)
    (host : Host) (sql : String) (allowCaches : Bool) (stmt : Statement (Query n)) :
    (run X { E with stmtCache := cache } host sql allowCaches stmt).1 =
      (E.run X host sql allowCaches stmt).1 := by
  cases stmt with
  | select s =>
    have hfst := (select_spec X { E with stmtCache := cache } host sql allowCaches s).1
    exact hfst.trans (E.select_spec X host sql allowCaches s).1.symm
  | _ => rfl

variable (parse : String → Except String Parsed)

/-- What `execute` should answer: the text parsed afresh and run now. -/
def freshResult (E : Executor Stats) (host : Host) (sql : String) : QueryResult :=
  match parse sql with
  | .error e => .failed e
  | .ok ps => (E.run X host sql true ps.2).1

/-- The cached trees of settled texts are those the parser builds. -/
def PreparedOk (E : Executor Stats) : Prop :=
  ∀ sql ps, E.stmtCache.lookup sql = some ps → settledText parse sql = true → parse sql = .ok ps

variable {parse}

variable {E E' : Executor Stats} {sql : String} {ps : Parsed}

section

variable (h : E.PreparedOk parse)

include h

theorem preparedOk_of_stmtCache_eq (hcache : E'.stmtCache = E.stmtCache) : E'.PreparedOk parse := by
  intro sql ps hps
  exact h sql ps (hcache ▸ hps)

theorem preparedOk_insert (hcache : E'.stmtCache = E.stmtCache.insert sql ps)
    (hps : settledText parse sql → parse sql = .ok ps) : E'.PreparedOk parse := by
  intro sql' ps' hlookup
  rw [hcache] at hlookup
  obtain ⟨rfl, rfl⟩ | ⟨-, hold⟩ := lookup_insert_cases hlookup
  · exact hps
  · exact h sql' ps' hold

theorem PreparedOk.prepare (hps : parse sql = .ok ps) : (E.prepare sql ps).PreparedOk parse := by
  unfold Executor.prepare
  split
  · exact preparedOk_insert h rfl fun _ => hps
  · exact h

/-- A run of the parser's tree, or of one that is not settled, keeps the cache right. -/
theorem PreparedOk.runPrepared (host : Host) (hps : settledText parse sql → parse sql = .ok ps) :
    (E.runPrepared X host sql ps).2.PreparedOk parse := by
  have hcache := E.run_stmtCache X host sql true ps.2
  unfold Executor.runPrepared
  split
  · refine preparedOk_insert (preparedOk_of_stmtCache_eq h hcache) rfl fun hsettled => ?_
    have hparse := hps hsettled
    rw [settledText, hparse] at hsettled
    rw [E.run_leaves X host sql true hsettled, hparse]
  · exact preparedOk_of_stmtCache_eq h hcache

theorem PreparedOk.execute (host : Host) (sql : String) :
    (E.execute X parse host sql).2.PreparedOk parse := by
  unfold Executor.execute
  split
  next ps hps =>
    exact h.runPrepared X host (h sql ps hps)
  split
  · exact h
  next ps hps =>
    exact (h.prepare hps).runPrepared X host fun _ => hps

theorem PreparedOk.cachePrepared (sql : String) : (E.cachePrepared parse sql).PreparedOk parse := by
  unfold Executor.cachePrepared
  split
  · exact h
  rename_i ps hps
  split
  · exact preparedOk_insert h rfl fun _ => hps
  · exact h.prepare hps

end

theorem execute_fst_of_lookup_none (host : Host) (h : E.stmtCache.lookup sql = none) :
    (E.execute X parse host sql).1 = E.freshResult X parse host sql := by
  unfold execute freshResult
  rw [h]
  cases hps : parse sql with
  | error e => rfl
  | ok ps =>
    simp only [prepare]
    split
    · exact E.run_fst_stmtCache X _ host sql true ps.2
    · rfl

/-- If the cached tree is the parser's, the answer is that of a fresh parse. -/
theorem execute_fst_of_intact (host : Host)
    (h : ∀ ps, E.stmtCache.lookup sql = some ps → parse sql = .ok ps) :
    (E.execute X parse host sql).1 = E.freshResult X parse host sql := by
  cases hlookup : E.stmtCache.lookup sql with
  | none => exact execute_fst_of_lookup_none X host hlookup
  | some ps =>
    unfold execute freshResult
    rw [hlookup, h ps hlookup]
    rfl

end Executor

variable {parse : String → Except String Parsed}

theorem preparedOk_step (E : Executor Stats) (call : ExecutorCall) (h : E.PreparedOk parse) :
    ((executorMachine X parse).step E call).2.PreparedOk parse := by
  cases call with
  | execute host sql => exact h.execute X host sql
  | executeParsed host sql ps =>
    exact preparedOk_of_stmtCache_eq h (E.run_stmtCache X host sql false ps.2)
  | cachePrepared sql => exact h.cachePrepared sql
  | clearPreparedCache =>
    intro sql ps hlookup
    simp [executorMachine] at hlookup
  | ingestTickBatch host table ticks
  | enableResultCache max ttl
  | disableResultCache | invalidateResultCache
  | dataChange db => exact preparedOk_of_stmtCache_eq h rfl

theorem preparedOk_run {E : Executor Stats} (hnew : E.stmtCache = ∅) (calls : List ExecutorCall) :
    ((executorMachine X parse).run E calls).PreparedOk parse := by
  refine (executorMachine X parse).invariant_run (preparedOk_step X) ?_ calls
  intro sql ps hlookup
  simp [hnew] at hlookup

/-- After any calls, a text is answered as if parsed afresh if no run has overwritten its cached
tree, and no run overwrites that of a settled text. -/
theorem execute_eq_fresh (parse : String → Except String Parsed) (E : Executor Stats)
    (hnew : E.stmtCache = ∅) (calls : List ExecutorCall) (host : Host) (sql : String)
    (h : (∀ ps, ((executorMachine X parse).run E calls).stmtCache.lookup sql = some ps →
        parse sql = .ok ps) ∨ settledText parse sql = true) :
    (((executorMachine X parse).run E calls).execute X parse host sql).1 =
      ((executorMachine X parse).run E calls).freshResult X parse host sql := by
  refine execute_fst_of_intact X host fun ps hps => ?_
  rcases h with hintact | hsettled
  · exact hintact ps hps
  · exact preparedOk_run X hnew calls sql ps hps hsettled

end

/-! ## A comparison with the clock -/

/-- `SELECT price FROM trades WHERE price < e`. -/
def selectBelow (c : Comparison) : SelectStmt (Query 0) where
  columns := [{ column := "price" }]
  fromTable := "trades"
  whereClause := some (.compare { c with column := "price", op := .lt })

def parsesTo (stmt : SelectStmt (Query 0)) (_ : String) : Except String Parsed :=
  .ok ⟨0, .select stmt⟩

def onePriceExecutor : Executor Unit := { db := onePriceDb, stats := () }

def afterOneRun (stmt : SelectStmt (Query 0)) : Executor Unit :=
  (executorMachine idleExecutors (parsesTo stmt)).run onePriceExecutor
    [.execute { env := ⟨0⟩ } "q"]

/-- `price < 5`, run at time 0 and again at time 10. -/
theorem execute_literal_twice : settledText (parsesTo (selectBelow { value := 5 })) "q" = true ∧
    ((afterOneRun (selectBelow { value := 5 })).execute idleExecutors
      (parsesTo (selectBelow { value := 5 })) { env := ⟨10⟩ } "q").1 =
    (afterOneRun (selectBelow { value := 5 })).freshResult idleExecutors
      (parsesTo (selectBelow { value := 5 })) { env := ⟨10⟩ } "q" :=
  ⟨rfl, execute_eq_fresh idleExecutors _ onePriceExecutor rfl _ _ "q" (.inr rfl)⟩

/-- `price < NOW()` at time 0 and again at time 10: the second run still compares with 0 and misses
a row. -/
theorem execute_now_twice : let stmt := selectBelow { valueExpr := some .now }
    ((afterOneRun stmt).execute idleExecutors (parsesTo stmt) { env := ⟨10⟩ } "q").1.rows = [] ∧
    ((afterOneRun stmt).freshResult idleExecutors (parsesTo stmt) { env := ⟨10⟩ } "q").rows =
      [[0]] :=
  ⟨rfl, rfl⟩

end Zepto.Sql
