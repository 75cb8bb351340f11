import Zepto.Sql.Execute

/-!
# What a SELECT reads

`EveryRead P` says that `P` holds of every place of a statement where a run reads a named table,
with the common table expressions in scope there. Two runs of a statement give the same if the
reads do, and if the memories of the planner that they start from are related by a relation that
every step of a run keeps (`Paired`).
-/

namespace Zepto.Sql

open Zepto.Lib Zepto.Storage SelectStmt

/-! ## The places where a statement reads -/

section

variable {Q : Type}

/-- The tree has a symbol condition that chooses partitions, or will once its subqueries are
literals. -/
def narrowsSymbol : Expr Q → Bool
  | .compare c => c.column = "symbol" && c.op = .eq
  | .scalarSubquery _ column op _ => column = "symbol" && op = .eq
  | .inList _ column _ negated => column = "symbol" && !negated
  | .inSubquery _ column _ => column = "symbol"
  | .and l r | .or l r => narrowsSymbol l || narrowsSymbol r
  | .not l => narrowsSymbol l
  | _ => false

theorem findSymbol_of_not_narrows (dict : StringDictionary) {e : Expr Q}
    (h : narrowsSymbol e = false) : findSymbol dict e = none ∧ findSymbolIn e = none := by
  induction e with
  | and l r ihl ihr | or l r ihl ihr =>
    obtain ⟨hl, hr⟩ := Bool.or_eq_false_iff.mp h
    simp [findSymbol, findSymbolIn, ihl hl, ihr hr]
  | not l ih => exact ih h
  | compare c =>
    have hc : ¬(c.column = "symbol" ∧ c.op = .eq) := by simpa [narrowsSymbol] using h
    exact ⟨if_neg hc, rfl⟩
  | inList _ column vals negated => simpa [findSymbol, findSymbolIn, narrowsSymbol] using h
  | _ => exact ⟨rfl, rfl⟩

/-- A statement's own read of a table: its name, the join behind it, whether the `WHERE` chooses
partitions, and whether the planner moves it to the right side. -/
structure TableRead where
  table : String
  join : Option JoinClause
  narrows : Bool
  pushes : Bool

def SelectStmt.tableRead (stmt : SelectStmt Q) : TableRead where
  table := stmt.fromTable
  join := stmt.join
  narrows := stmt.whereClause.any fun e => narrowsSymbol e || (findTimeRange e).isSome
  pushes := stmt.join.any (pushesRight stmt)

/-- `P` holds of every query inside a condition. -/
def EveryQuery (P : Q → Prop) : Expr Q → Prop
  | .and l r | .or l r => EveryQuery P l ∧ EveryQuery P r
  | .not l => EveryQuery P l
  | .scalarSubquery _ _ _ q | .inSubquery _ _ q => P q
  | _ => True

/-- `P` holds of what a statement reads itself: a named table with its join, unless it reads a
subquery; `inner` of the queries it runs. -/
structure EveryBody (P : TableRead → Prop) (inner : Q → Prop)
    (stmt : SelectStmt Q) : Prop where
  whereClause : ∀ e, stmt.whereClause = some e → EveryQuery inner e
  fromSubquery : ∀ q, stmt.fromSubquery = some q → inner q
  rhs : ∀ q, stmt.rhs = some q → inner q
  named : stmt.fromSubquery = none → P (tableRead stmt)

end

/-- `P` holds of every read of a query, with the common table expressions in scope; the parser nests
none. -/
def EveryRead (P : List String → TableRead → Prop) (scope : List String) :
    (n : Nat) → Query n → Prop
  | 0 => fun q => q.elim
  | n + 1 => fun stmt : SelectStmt (Query n) =>
    stmt.cteDefs = [] ∧ EveryBody (P scope) (EveryRead P scope n) stmt

def scopeAfter {Q : Type} (scope : List String) (defs : List (String × Q)) : List String :=
  defs.foldl (fun scope d => d.1 :: scope) scope

/-- `P` holds of every read of common table expressions, each in the scope of those before. -/
def EveryCte (P : List String → TableRead → Prop) {n : Nat} :
    List String → List (String × Query n) → Prop
  | _, [] => True
  | scope, d :: defs => EveryRead P scope n d.2 ∧ EveryCte P (d.1 :: scope) defs

/-- `P` holds of every read of a statement. -/
def EveryTopRead (P : List String → TableRead → Prop) {n : Nat}
    (stmt : SelectStmt (Query n)) : Prop :=
  EveryCte P [] stmt.cteDefs ∧
    EveryBody (P (scopeAfter [] stmt.cteDefs)) (EveryRead P (scopeAfter [] stmt.cteDefs) n) stmt

section

variable {P P' R : List String → TableRead → Prop}

variable {Q : Type} {A B C : Q → Prop} {scope : List String} {n : Nat}

theorem EveryQuery.and_imp (himp : ∀ q, A q → B q → C q) {e : Expr Q} (ha : EveryQuery A e)
    (hb : EveryQuery B e) : EveryQuery C e := by
  induction e with
  | and l r ihl ihr | or l r ihl ihr => exact ⟨ihl ha.1 hb.1, ihr ha.2 hb.2⟩
  | not l ih => exact ih ha hb
  | scalarSubquery _ _ _ q | inSubquery _ _ q => exact himp q ha hb
  | _ => trivial

theorem EveryBody.and_imp {S S' T : TableRead → Prop} (hP : ∀ r, S r → S' r → T r)
    (himp : ∀ q, A q → B q → C q) {stmt : SelectStmt Q} (ha : EveryBody S A stmt)
    (hb : EveryBody S' B stmt) : EveryBody T C stmt where
  whereClause e he := (ha.whereClause e he).and_imp himp (hb.whereClause e he)
  fromSubquery q hq := himp q (ha.fromSubquery q hq) (hb.fromSubquery q hq)
  rhs q hq := himp q (ha.rhs q hq) (hb.rhs q hq)
  named hnone := hP _ (ha.named hnone) (hb.named hnone)

section

variable (hP : ∀ scope r, P scope r → P' scope r → R scope r)

include hP

theorem EveryRead.and_imp {q : Query n} (ha : EveryRead P scope n q) (hb : EveryRead P' scope n q) :
    EveryRead R scope n q := by
  induction n with
  | zero => exact q.elim
  | succ n ih => exact ⟨ha.1, ha.2.and_imp (hP scope) (fun _ => ih) hb.2⟩

theorem EveryCte.and_imp {defs : List (String × Query n)} (ha : EveryCte P scope defs)
    (hb : EveryCte P' scope defs) : EveryCte R scope defs := by
  induction defs generalizing scope with
  | nil => trivial
  | cons d defs ih => exact ⟨ha.1.and_imp hP hb.1, ih ha.2 hb.2⟩

theorem EveryTopRead.and_imp {stmt : SelectStmt (Query n)} (ha : EveryTopRead P stmt)
    (hb : EveryTopRead P' stmt) : EveryTopRead R stmt :=
  ⟨ha.1.and_imp hP hb.1, ha.2.and_imp (hP _) (fun _ h h' => h.and_imp hP h') hb.2⟩

end

end

/-! ## Literals leave the reads as they are -/

section

variable {Q Stats : Type}

variable {e e' l l' r r' : Expr Q}

/-- The trees choose partitions alike, and the planner moves them alike. -/
structure SameShape (e e' : Expr Q) : Prop where
  narrows : narrowsSymbol e = narrowsSymbol e'
  time : (findTimeRange e).isSome = (findTimeRange e').isSome
  refs : ∀ t, e.referencesOnly t = e'.referencesOnly t

theorem SameShape.refl (e : Expr Q) : SameShape e e := ⟨rfl, rfl, fun _ => rfl⟩

theorem SameShape.trans {e'' : Expr Q} (h : SameShape e e') (h' : SameShape e' e'') :
    SameShape e e'' :=
  ⟨h.narrows.trans h'.narrows, h.time.trans h'.time, fun t => (h.refs t).trans (h'.refs t)⟩

theorem SameShape.and (hl : SameShape l l') (hr : SameShape r r') :
    SameShape (.and l r) (.and l' r') where
  narrows := by simp [narrowsSymbol, hl.narrows, hr.narrows]
  time := by simp [findTimeRange, hl.time, hr.time]
  refs t := by simp [Expr.referencesOnly, hl.refs, hr.refs]

theorem SameShape.or (hl : SameShape l l') (hr : SameShape r r') :
    SameShape (.or l r) (.or l' r') where
  narrows := by simp [narrowsSymbol, hl.narrows, hr.narrows]
  time := rfl
  refs t := by simp [Expr.referencesOnly, hl.refs, hr.refs]

theorem SameShape.not (h : SameShape l l') : SameShape (.not l) (.not l') where
  narrows := h.narrows
  time := rfl
  refs t := h.refs t

theorem resolveValueExprs_shape (env : Env) (e : Expr Q) :
    SameShape e (resolveValueExprs env e).2 := by
  induction e with
  | and l r ihl ihr =>
    unfold resolveValueExprs
    split <;> rename_i heq <;> rw [heq] at ihl
    · exact ihl.and (.refl r)
    · exact ihl.and ihr
  | or l r ihl ihr =>
    unfold resolveValueExprs
    split <;> rename_i heq <;> rw [heq] at ihl
    · exact ihl.or (.refl r)
    · exact ihl.or ihr
  | not l ih => exact ih.not
  | compare c =>
    unfold resolveValueExprs
    split
    · exact .refl _
    · split
      · exact ⟨rfl, rfl, fun _ => rfl⟩
      · exact .refl _
  | _ => exact .refl _

theorem scalarComparison_shape (tableAlias column : String) (op : CompareOp) (q : Q)
    (sub : QueryResult) :
    SameShape (.scalarSubquery tableAlias column op q)
      (.compare (scalarComparison tableAlias column op sub)) := by
  unfold scalarComparison
  split
  · split <;> exact ⟨rfl, rfl, fun _ => rfl⟩
  · exact ⟨rfl, rfl, fun _ => rfl⟩

theorem resolveSubqueries_shape (run : Runner Q Stats) (e : Expr Q) (st : Stats) :
    SameShape e (resolveSubqueries run e st).2.1 := by
  induction e generalizing st with
  | and l r ihl ihr =>
    have hl := ihl st
    unfold resolveSubqueries
    split <;> rename_i heq <;> rw [heq] at hl
    · exact hl.and (.refl r)
    · exact hl.and (ihr _)
  | or l r ihl ihr =>
    have hl := ihl st
    unfold resolveSubqueries
    split <;> rename_i heq <;> rw [heq] at hl
    · exact hl.or (.refl r)
    · exact hl.or (ihr _)
  | not l ih => exact (ih st).not
  | scalarSubquery tableAlias column op q =>
    unfold resolveSubqueries
    split
    · exact ⟨rfl, rfl, fun _ => rfl⟩
    · split
      · exact ⟨rfl, rfl, fun _ => rfl⟩
      · exact scalarComparison_shape _ _ _ _ _
  | inSubquery tableAlias column q =>
    unfold resolveSubqueries
    split
    · exact ⟨rfl, rfl, fun _ => rfl⟩
    · split
      · exact ⟨rfl, rfl, fun _ => rfl⟩
      · exact ⟨(Bool.and_true _).symm, rfl, fun _ => rfl⟩
  | _ => exact .refl _

theorem tableRead_of_shape {stmt : SelectStmt Q} {having : Option (Expr Q)}
    (hw : stmt.whereClause = some e) (h : SameShape e e') :
    tableRead { stmt with whereClause := some e', having } = tableRead stmt := by
  have hpush : pushesRight { stmt with whereClause := some e', having } = pushesRight stmt := by
    funext j
    simp [pushesRight, pushesTo, hw, ← h.refs]
  simp [tableRead, hpush, hw, ← h.narrows, ← h.time]

variable {inner : Q → Prop}

theorem resolveValueExprs_everyQuery (env : Env) {e : Expr Q} (h : EveryQuery inner e) :
    EveryQuery inner (resolveValueExprs env e).2 := by
  induction e with
  | and l r ihl ihr | or l r ihl ihr =>
    have hl := ihl h.1
    unfold resolveValueExprs
    split <;> rename_i heq <;> rw [heq] at hl
    · exact ⟨hl, h.2⟩
    · exact ⟨hl, ihr h.2⟩
  | not l ih => exact ih h
  | compare c =>
    unfold resolveValueExprs
    split
    · trivial
    · split <;> trivial
  | scalarSubquery | inSubquery => exact h
  | _ => trivial

/-! ## Two runs -/

/-- Related memories lead to the same outcome and to related memories. -/
def Paired {α β : Type} (R : Stats → Stats → Prop) (f1 f2 : Stats → α × β × Stats) : Prop :=
  ∀ st1 st2, R st1 st2 → ∃ a b s1 s2, f1 st1 = (a, b, s1) ∧ f2 st2 = (a, b, s2) ∧ R s1 s2

variable {R : Stats → Stats → Prop} {run1 run2 : Runner Q Stats}

/-- Subqueries resolve to the same literals, and then no query is left. -/
theorem resolveSubqueries_paired (hrun : ∀ q, inner q → Paired R (run1 q) (run2 q)) {e : Expr Q}
    (he : EveryQuery inner e) {st1 st2 : Stats} (hst : R st1 st2) :
    ∃ a b s1 s2, resolveSubqueries run1 e st1 = (a, b, s1) ∧
      resolveSubqueries run2 e st2 = (a, b, s2) ∧ R s1 s2 ∧
      (a = .ok () → EveryQuery inner b) := by
  induction e generalizing st1 st2 with
  | and l r ihl ihr | or l r ihl ihr =>
    obtain ⟨a, l', s1, s2, h1, h2, hs, hl⟩ := ihl he.1 hst
    simp only [resolveSubqueries, h1, h2]
    cases a with
    | error e => exact ⟨_, _, s1, s2, rfl, rfl, hs, by simp⟩
    | ok _ =>
      obtain ⟨a, r', t1, t2, h1, h2, ht, hr⟩ := ihr he.2 hs
      simp only [h1, h2]
      exact ⟨_, _, t1, t2, rfl, rfl, ht, fun h => ⟨hl rfl, hr h⟩⟩
  | not l ih =>
    obtain ⟨a, l', s1, s2, h1, h2, hs, hl⟩ := ih he hst
    simp only [resolveSubqueries, h1, h2]
    exact ⟨_, _, s1, s2, rfl, rfl, hs, hl⟩
  | scalarSubquery tableAlias column op q | inSubquery tableAlias column q =>
    obtain ⟨a, q', s1, s2, h1, h2, hs⟩ := hrun q he st1 st2 hst
    simp only [resolveSubqueries, h1, h2]
    cases a with
    | error e => exact ⟨_, _, s1, s2, rfl, rfl, hs, by simp⟩
    | ok sub =>
      simp only
      split
      · exact ⟨_, _, s1, s2, rfl, rfl, hs, by simp⟩
      · exact ⟨_, _, s1, s2, rfl, rfl, hs, fun _ => trivial⟩
  | _ => exact ⟨_, _, st1, st2, rfl, rfl, hst, fun _ => trivial⟩

def plannedFor (X : Executors Stats) (db : Database) (stmt : SelectStmt Q) (st : Stats) : Stats :=
  if needsCostPlanning stmt then X.updateStats st db.partitions else st

/-- A look at the partitions keeps the relation, and both sessions read the same where `P` holds. -/
structure PairedSessions (X : Executors Stats) (R : Stats → Stats → Prop)
    (P : TableRead → Prop) (ses1 ses2 : Session) : Prop where
  env : ses1.env = ses2.env
  plan : ∀ s1 s2, R s1 s2 →
    R (X.updateStats s1 ses1.db.partitions) (X.updateStats s2 ses2.db.partitions)
  named : ∀ {Q : Type} (stmt : SelectStmt Q) s1 s2, P (tableRead stmt) → R s1 s2 →
    execNamed X ses1 (plannedFor X ses1.db stmt s1) stmt =
      execNamed X ses2 (plannedFor X ses2.db stmt s2) stmt

variable {X : Executors Stats} {P : TableRead → Prop} {ses1 ses2 : Session} {stmt : SelectStmt Q}

theorem PairedSessions.plannedFor (h : PairedSessions X R P ses1 ses2) {st1 st2 : Stats}
    (hst : R st1 st2) (stmt : SelectStmt Q) :
    R (plannedFor X ses1.db stmt st1) (plannedFor X ses2.db stmt st2) := by
  unfold Sql.plannedFor
  split
  · exact h.plan _ _ hst
  · exact hst

section

variable (hses : PairedSessions X R P ses1 ses2)
  (hrun : ∀ q, inner q → Paired R (run1 q) (run2 q))
include hses hrun

section

variable (h : EveryBody P inner stmt)

include h

theorem prepare_paired {st1 st2 : Stats} (hst : R st1 st2) :
    ∃ a b s1 s2, prepare X ses1 run1 stmt st1 = (a, b, s1) ∧
      prepare X ses2 run2 stmt st2 = (a, b, s2) ∧ R s1 s2 ∧
      (a = none → EveryBody P inner b ∧ ∃ t1 t2, R t1 t2 ∧
        s1 = plannedFor X ses1.db b t1 ∧ s2 = plannedFor X ses2.db b t2) := by
  unfold prepare
  simp only [hses.env]
  generalize hhav : resolveWhereExprs ses2.env stmt.having = having
  cases hw : stmt.whereClause with
  | none =>
    rcases having with ⟨_ | _, hav⟩
    · exact ⟨_, _, st1, st2, rfl, rfl, hst, by simp⟩
    have hread : tableRead { stmt with whereClause := none, having := hav } = tableRead stmt := by
      have hpush : pushesRight { stmt with whereClause := none, having := hav } =
          pushesRight stmt := by
        funext j
        simp [pushesRight, hw]
      simp [tableRead, hpush, hw]
    refine ⟨_, _, _, _, rfl, rfl, hses.plannedFor hst _, fun _ =>
      ⟨⟨by simp, h.fromSubquery, h.rhs, fun hnone => ?_⟩, st1, st2, hst, rfl, rfl⟩⟩
    exact hread ▸ h.named hnone
  | some e =>
    have he := resolveValueExprs_everyQuery ses2.env (h.whereClause e hw)
    simp only [resolveWhereExprs]
    have hshape := resolveValueExprs_shape ses2.env e
    rcases hres : resolveValueExprs ses2.env e with ⟨o, e1⟩
    rw [hres] at he hshape
    cases o with
    | error msg => exact ⟨_, _, st1, st2, rfl, rfl, hst, by simp⟩
    | ok _ =>
      rcases having with ⟨_ | _, hav⟩
      · exact ⟨_, _, st1, st2, rfl, rfl, hst, by simp⟩
      obtain ⟨a, e2, s1, s2, h1, h2, hs, hok⟩ := resolveSubqueries_paired hrun he hst
      simp only [h1, h2]
      cases a with
      | error msg => exact ⟨_, _, s1, s2, rfl, rfl, hs, by simp⟩
      | ok _ =>
        have hshape2 := resolveSubqueries_shape run1 e1 st1
        rw [h1] at hshape2
        refine ⟨_, _, _, _, rfl, rfl, hses.plannedFor hs _, fun _ =>
          ⟨⟨?_, h.fromSubquery, h.rhs, fun hnone => ?_⟩, s1, s2, hs, rfl, rfl⟩⟩
        · intro e' he'
          cases he'
          exact hok rfl
        · exact tableRead_of_shape hw (hshape.trans hshape2) ▸ h.named hnone

theorem execBody_paired {st1 st2 : Stats} (hst : R st1 st2) :
    ∃ a b s1 s2, execBody X ses1 run1 stmt (plannedFor X ses1.db stmt st1) = (a, b, s1) ∧
      execBody X ses2 run2 stmt (plannedFor X ses2.db stmt st2) = (a, b, s2) ∧ R s1 s2 := by
  have hplanned := hses.plannedFor hst stmt
  unfold execBody
  cases hsub : stmt.fromSubquery with
  | none =>
    simp only [hses.named stmt st1 st2 (h.named hsub) hst]
    exact ⟨_, _, _, _, rfl, rfl, hplanned⟩
  | some q =>
    obtain ⟨a, q', s1, s2, h1, h2, hs⟩ := hrun q (h.fromSubquery q hsub) _ _ hplanned
    simp only [h1, h2, hses.env]
    cases a with
    | error e => exact ⟨_, _, s1, s2, rfl, rfl, hs⟩
    | ok sub =>
      simp only
      split <;> exact ⟨_, _, s1, s2, rfl, rfl, hs⟩

theorem execNoSet_paired : Paired R (execNoSet X ses1 run1 stmt) (execNoSet X ses2 run2 stmt) := by
  intro st1 st2 hst
  obtain ⟨a, b, s1, s2, h1, h2, hs, hok⟩ := prepare_paired hses hrun h hst
  simp only [execNoSet, h1, h2]
  cases a with
  | some r => exact ⟨_, _, s1, s2, rfl, rfl, hs⟩
  | none =>
    obtain ⟨hb, t1, t2, ht, rfl, rfl⟩ := hok rfl
    exact execBody_paired hses hrun hb ht

theorem execSetOp_paired {rhs : Q} (hrhs : stmt.rhs = some rhs) :
    Paired R (execSetOp X ses1 run1 stmt rhs) (execSetOp X ses2 run2 stmt rhs) := by
  intro st1 st2 hst
  have hleft : EveryBody P inner { stmt with setOp := .none, rhs := none } :=
    ⟨h.whereClause, h.fromSubquery, nofun, h.named⟩
  obtain ⟨a, b, s1, s2, h1, h2, hs⟩ := execNoSet_paired hses hrun hleft st1 st2 hst
  simp only [execSetOp, h1, h2]
  cases a with
  | error e => exact ⟨_, _, s1, s2, rfl, rfl, hs⟩
  | ok left =>
    obtain ⟨a, q', t1, t2, h1, h2, ht⟩ := hrun rhs (h.rhs rhs hrhs) s1 s2 hs
    simp only [h1, h2]
    cases a <;> exact ⟨_, _, t1, t2, rfl, rfl, ht⟩

theorem execStep_paired : Paired R (execStep X ses1 run1 stmt) (execStep X ses2 run2 stmt) := by
  intro st1 st2 hst
  obtain ⟨a, b, s1, s2, h1, h2, hs, hok⟩ := prepare_paired hses hrun h hst
  simp only [execStep, h1, h2]
  cases a with
  | some r => exact ⟨_, _, s1, s2, rfl, rfl, hs⟩
  | none =>
    obtain ⟨hb, t1, t2, ht, rfl, rfl⟩ := hok rfl
    simp only
    split
    · exact execBody_paired hses hrun hb ht
    · exact execBody_paired hses hrun hb ht
    next rhs hrhs _ =>
      exact execSetOp_paired hses hrun hb hrhs _ _ hs

end

end

end

end Zepto.Sql
