import Zepto.Server.Access
import Zepto.Sql.Reads

/-!
# Confined reads

Two databases agree on a set of names if they have the same tables and views of these names
(`AgreeOn`). A `SELECT` whose reads are confined to allowed names gives the same on databases that
agree on them (`runSelect_agree`), whatever the planner remembers of the other tables.
-/

namespace Zepto.Server

open List Zepto.Lib Zepto.Storage Zepto.Sql SelectStmt

/-! ## Agreement -/

/-- The same tables and views of the allowed names, in the order of iteration, and the same codes
for strings. -/
structure AgreeOn (allowed : String → Bool) (db1 db2 : Database) : Prop where
  registry : ∀ t, allowed t = true → db1.registry.lookup t = db2.registry.lookup t
  partitions : ∀ t, allowed t = true → db1.registry.lookup t ≠ none →
    partitionsForTable db1.partitions (db1.registry.getTableId t) =
      partitionsForTable db2.partitions (db1.registry.getTableId t)
  views : (db1.views.entries.filter fun e => allowed e.1) =
    db2.views.entries.filter fun e => allowed e.1
  symbolDict : db1.symbolDict = db2.symbolDict

/-- The allowed tables and views have the same contents. -/
structure SameContents (allowed : String → Bool) (db1 db2 : Database) : Prop where
  registry : ∀ t, allowed t = true → db1.registry.lookup t = db2.registry.lookup t
  partitions : ∀ t, allowed t = true → db1.registry.lookup t ≠ none →
    (partitionsForTable db1.partitions (db1.registry.getTableId t)).Perm
      (partitionsForTable db2.partitions (db1.registry.getTableId t))
  views : (db1.views.entries.filter fun e => allowed e.1).Perm
    (db2.views.entries.filter fun e => allowed e.1)

/-- What the other tables and views have a part in: the order in which the maps of all partitions
and all views are gone through, and the codes of the dictionary of all symbols. -/
structure SameLayout (allowed : String → Bool) (db1 db2 : Database) : Prop where
  partitions : ∀ t, allowed t = true → db1.registry.lookup t ≠ none →
    (partitionsForTable db1.partitions (db1.registry.getTableId t)).map Partition.key =
      (partitionsForTable db2.partitions (db1.registry.getTableId t)).map Partition.key
  views : (db1.views.entries.filter fun e => allowed e.1).map Sigma.fst =
    (db2.views.entries.filter fun e => allowed e.1).map Sigma.fst
  symbolDict : db1.symbolDict = db2.symbolDict

theorem eq_of_perm_of_keys {α κ : Type*} {f : α → κ} {l1 l2 : List α} (hperm : l1.Perm l2)
    (hkeys : l1.map f = l2.map f) (hnodup : (l1.map f).Nodup) : l1 = l2 := by
  refine ext_getElem hperm.length_eq fun i h1 h2 => ?_
  refine inj_on_of_nodup_map hnodup (getElem_mem h1) (hperm.mem_iff.mpr (getElem_mem h2)) ?_
  have hi : (l1.map f)[i]? = (l2.map f)[i]? := by rw [hkeys]
  simpa [h1, h2] using hi

theorem SameContents.agreeOn {allowed : String → Bool} {db1 db2 : Database}
    (h : SameContents allowed db1 db2) (hlayout : SameLayout allowed db1 db2) :
    AgreeOn allowed db1 db2 where
  registry := h.registry
  partitions t ht hknown := by
    refine eq_of_perm_of_keys (h.partitions t ht hknown) (hlayout.partitions t ht hknown) ?_
    exact db1.keys_nodup.sublist (filter_sublist.map _)
  views := eq_of_perm_of_keys h.views hlayout.views
    (db1.views.nodupKeys.sublist filter_sublist)
  symbolDict := hlayout.symbolDict

theorem dlookup_filter {β : String → Type} (allowed : String → Bool) {t : String}
    (ht : allowed t) (l : List (Sigma β)) :
    (l.filter fun e => allowed e.1).dlookup t = l.dlookup t := by
  induction l with
  | nil => rfl
  | cons e l ih =>
    obtain ⟨k, v⟩ := e
    by_cases hk : t = k
    · subst hk
      simp [ht]
    rw [filter_cons]
    split
    · rw [dlookup_cons_ne _ _ hk, dlookup_cons_ne _ _ hk, ih]
    · rw [dlookup_cons_ne _ _ hk, ih]

section

variable {allowed : String → Bool} {db1 db2 : Database} {t : String}

section

variable (h : AgreeOn allowed db1 db2) (ht : allowed t = true)

include h ht

theorem AgreeOn.getTableId : db1.registry.getTableId t = db2.registry.getTableId t := by
  unfold SchemaRegistry.getTableId
  rw [h.registry t ht]

theorem AgreeOn.view : db1.views.lookup t = db2.views.lookup t := by
  have h1 := dlookup_filter allowed ht db1.views.entries
  have h2 := dlookup_filter allowed ht db2.views.entries
  exact h1.symm.trans ((congrArg (dlookup t) h.views).trans h2)

theorem AgreeOn.queryView : db1.views.queryView t = db2.views.queryView t := by
  unfold Views.queryView
  rw [h.view ht]

end

theorem partitionsForSymbol_eq (ps : List Partition) (tid : TableId) (sym : SymbolId) :
    partitionsForSymbol ps tid sym =
      (partitionsForTable ps tid).filter fun p => p.key.symbolId = sym := by
  unfold partitionsForSymbol partitionsForTable
  rw [filter_filter]
  exact filter_congr fun p _ => Bool.and_comm _ _

theorem partitionsForTimeRange_eq (ps : List Partition) (tid : TableId) (lo hi : Int) :
    partitionsForTimeRange ps (some tid) lo hi =
      (partitionsForTable ps tid).filter fun p => hourOverlaps p lo hi := by
  unfold partitionsForTimeRange partitionsForTable
  rw [filter_filter]
  exact filter_congr fun p _ => Bool.and_comm _ _

theorem lookup_ne_none_of_getTableId {reg : SchemaRegistry} (h : reg.getTableId t ≠ 0) :
    reg.lookup t ≠ none := by
  intro hnone
  simp [SchemaRegistry.getTableId, hnone] at h

theorem findPartitions_of_id {db : Database} (h : db.registry.getTableId t ≠ 0) :
    db.findPartitions t = partitionsForTable db.partitions (db.registry.getTableId t) := by
  unfold Database.findPartitions
  rw [if_neg fun hunknown => lookup_ne_none_of_getTableId h hunknown.2.2, if_neg h]

/-- The database knows the name as a table's, or knows that there is none. -/
def Resolved (db : Database) (t : String) : Prop :=
  db.registry.getTableId t ≠ 0 ∨
    (t ≠ "" ∧ 0 < db.registry.tableCount ∧ db.registry.lookup t = none)

section

variable (h : AgreeOn allowed db1 db2) (ht : allowed t)

include h ht

theorem AgreeOn.findPartitions (h1 : Resolved db1 t) (h2 : Resolved db2 t) :
    db1.findPartitions t = db2.findPartitions t := by
  rcases h1 with hid | hnone1
  · rw [findPartitions_of_id hid, findPartitions_of_id (h.getTableId ht ▸ hid),
      h.partitions t ht (lookup_ne_none_of_getTableId hid), h.getTableId ht]
  rcases h2 with hid | hnone2
  · exact absurd (h.registry t ht ▸ hnone1.2.2) (lookup_ne_none_of_getTableId hid)
  · unfold Database.findPartitions
    rw [if_pos hnone1, if_pos hnone2]

/-- The partitions chosen for a table with an id are chosen among its own. -/
theorem AgreeOn.prunedPartitions {Q : Type}
    (hid : db1.registry.getTableId t ≠ 0) (w : Option (Expr Q)) :
    prunedPartitions db1 t w = prunedPartitions db2 t w := by
  have hsame := h.partitions t ht (lookup_ne_none_of_getTableId hid)
  have htid := h.getTableId ht
  have hsym (sym : SymbolId) : symbolPartitions db1 (db1.registry.getTableId t) sym =
      symbolPartitions db2 (db2.registry.getTableId t) sym := by
    unfold symbolPartitions
    rw [← htid, if_pos hid, if_pos hid, partitionsForSymbol_eq, partitionsForSymbol_eq, hsame]
  have htime (lo hi : Int) : partitionsForTimeRange db1.partitions
        (if db1.registry.getTableId t = 0 then none else some (db1.registry.getTableId t)) lo hi =
      partitionsForTimeRange db2.partitions
        (if db2.registry.getTableId t = 0 then none
          else some (db2.registry.getTableId t)) lo hi := by
    rw [← htid, if_neg hid, partitionsForTimeRange_eq, partitionsForTimeRange_eq, hsame]
  have hfind := h.findPartitions ht (.inl hid) (.inl (htid ▸ hid))
  unfold Sql.prunedPartitions
  simp only [h.symbolDict, hsym, htime, hfind]

end

end

/-! ## Two runs -/

/-- A join reads an allowed table, and its build side does not depend on the statistics. -/
structure JoinConfined (allowed : String → Bool) (db1 db2 : Database) (pushes : Bool)
    (j : JoinClause) : Prop where
  allows : allowed j.table = true
  resolved₁ : Resolved db1 j.table
  resolved₂ : Resolved db2 j.table
  planned : j.type = .inner ∨ j.type = .full → pushes = false

/-- The database has a table of the name; without one the `WHERE` would choose among all tables. -/
def Scanned (db : Database) (read : TableRead) : Prop :=
  db.registry.getTableId read.table ≠ 0 ∨ (read.narrows = false ∧ Resolved db read.table)

/-- A read of a common table expression is not taken by a view; any other is of an allowed view or
table. -/
structure ReadConfined (allowed : String → Bool) (db1 db2 : Database) (scope : List String)
    (read : TableRead) : Prop where
  cte : read.table ∈ scope → db1.views.lookup read.table = none ∧ db2.views.lookup read.table = none
  allows : read.table ∉ scope → allowed read.table = true
  table : read.table ∉ scope → db1.views.lookup read.table = none →
    Scanned db1 read ∧ Scanned db2 read ∧
      ∀ j, read.join = some j → JoinConfined allowed db1 db2 read.pushes j

def InScope (ctes : AList fun _ : String => QueryResult) (scope : List String) : Prop :=
  ∀ name, name ∈ scope ↔ (ctes.lookup name).isSome = true

section

variable {Q Stats : Type} {X : Executors Stats} {allowed : String → Bool} {db1 db2 : Database}
  {env : Env} {ctes : AList fun _ : String => QueryResult} {scope : List String}

variable {stmt : SelectStmt Q}

theorem prunedPartitions_of_not_narrows {db : Database} (h : (tableRead stmt).narrows = false) :
    prunedPartitions db stmt.fromTable stmt.whereClause = db.findPartitions stmt.fromTable := by
  unfold prunedPartitions hasWhereSymbol hasWhereSymbolIn extractTimeRange
  cases hw : stmt.whereClause with
  | none => rfl
  | some e =>
    simp only [tableRead, hw, Option.any_some, Bool.or_eq_false_iff,
      Option.isSome_eq_false_iff, Option.isNone_iff_eq_none] at h
    obtain ⟨hsym, hin⟩ := findSymbol_of_not_narrows db.symbolDict h.1
    simp [hsym, hin, h.2]

section

variable (hagree : AgreeOn allowed db1 db2)

include hagree

theorem prunedPartitions_agree
    (hallows : allowed stmt.fromTable) (h1 : Scanned db1 (tableRead stmt))
    (h2 : Scanned db2 (tableRead stmt)) :
    prunedPartitions db1 stmt.fromTable stmt.whereClause =
      prunedPartitions db2 stmt.fromTable stmt.whereClause := by
  rcases h1 with hid | ⟨hnarrows, hresolved⟩
  · exact hagree.prunedPartitions hallows hid _
  rcases h2 with hid | ⟨-, hresolved2⟩
  · exact hagree.prunedPartitions hallows (hagree.getTableId hallows ▸ hid) _
  · rw [prunedPartitions_of_not_narrows hnarrows, prunedPartitions_of_not_narrows hnarrows,
      hagree.findPartitions hallows hresolved hresolved2]

theorem execJoin_agree {j : JoinClause}
    (hj : JoinConfined allowed db1 db2 (pushesRight stmt j) j) (st1 st2 : Stats)
    (left : List Partition) : execJoin X { env, db := db1, ctes } st1 stmt j left =
      execJoin X { env, db := db2, ctes } st2 stmt j left := by
  unfold execJoin
  simp only [hagree.findPartitions hj.allows hj.resolved₁ hj.resolved₂]
  cases htype : j.type with
  | inner =>
    have hpush := hj.planned (.inl htype)
    simp [plannerSwap_of_not_pushesRight X _ hpush]
  | full =>
    have hpush := hj.planned (.inr htype)
    simp [plannerSwap_of_not_pushesRight X _ hpush]
  | _ => rfl

theorem execNamed_agree (hscope : InScope ctes scope)
    (h : ReadConfined allowed db1 db2 scope (tableRead stmt)) (st1 st2 : Stats) :
    execNamed X { env, db := db1, ctes } st1 stmt =
      execNamed X { env, db := db2, ctes } st2 stmt := by
  unfold execNamed
  by_cases hin : stmt.fromTable ∈ scope
  · obtain ⟨h1, h2⟩ := h.cte hin
    obtain ⟨r, hr⟩ := Option.isSome_iff_exists.mp ((hscope _).mp hin)
    simp only [tableRead] at h1 h2
    simp only [h1, h2, hr]
    rfl
  · have hallows : allowed stmt.fromTable := h.allows hin
    simp only [← hagree.view hallows, ← hagree.queryView hallows]
    cases hview : db1.views.lookup stmt.fromTable with
    | some view => rfl
    | none =>
      obtain ⟨h1, h2, hjoin⟩ := h.table hin hview
      unfold execTable
      simp only [← prunedPartitions_agree hagree hallows h1 h2]
      cases hj : stmt.join with
      | none => rfl
      | some j =>
        have hlist : prunesByList db1 stmt.whereClause = prunesByList db2 stmt.whereClause := by
          unfold prunesByList
          rw [hagree.symbolDict]
        have hconfined := hjoin j hj
        simp only [tableRead, hj] at hconfined
        simp [hlist, execJoin_agree hagree hconfined st1 st2]

end

end

section

variable {Stats : Type} (X : Executors Stats) {allowed : String → Bool} {db1 db2 : Database}
  (env : Env)

variable {ctes : AList fun _ : String => QueryResult} {scope : List String} {n : Nat}
  {stmt : SelectStmt (Query n)}

section

variable (hagree : AgreeOn allowed db1 db2) (hscope : InScope ctes scope)

include hagree hscope

/-- Whatever the planner remembers, confined reads give the same. -/
theorem pairedSessions : PairedSessions X (fun _ _ => True) (ReadConfined allowed db1 db2 scope)
      { env, db := db1, ctes } { env, db := db2, ctes } :=
  ⟨rfl, fun _ _ _ => trivial, fun _ _ _ h _ => execNamed_agree hagree hscope h _ _⟩

theorem execSelect_agree (n : Nat)
    (q : Query n) (hq : EveryRead (ReadConfined allowed db1 db2) scope n q) :
    Paired (fun _ _ => True) (execSelect X { env, db := db1, ctes } n q)
      (execSelect X { env, db := db2, ctes } n q) := by
  induction n with
  | zero => exact q.elim
  | succ n ih => exact execStep_paired (pairedSessions X env hagree hscope) ih hq.2

end

theorem InScope.insert (h : InScope ctes scope) (name : String) (r : QueryResult) :
    InScope (ctes.insert name r) (name :: scope) := by
  intro t
  by_cases ht : t = name
  · subst ht
    simp
  · rw [AList.lookup_insert_ne ht, mem_cons, or_iff_right ht]
    exact h t

/-- The common table expressions give the same results and are in scope then. -/
theorem runCtes_agree (hagree : AgreeOn allowed db1 db2) {defs : List (String × Query n)}
    (hscope : InScope ctes scope) (h : EveryCte (ReadConfined allowed db1 db2) scope defs)
    (st1 st2 : Stats) : ∃ a b s1 s2, runCtes X env db1 n defs ctes st1 = (a, b, s1) ∧
      runCtes X env db2 n defs ctes st2 = (a, b, s2) ∧
      ∀ ctes', a = .ok ctes' → InScope ctes' (scopeAfter scope defs) := by
  induction defs generalizing ctes scope st1 st2 with
  | nil =>
    refine ⟨_, _, st1, st2, rfl, rfl, fun ctes' h => ?_⟩
    cases h
    exact hscope
  | cons d defs ih =>
    obtain ⟨name, q⟩ := d
    obtain ⟨a, q', s1, s2, h1, h2, -⟩ :=
      execSelect_agree X env hagree hscope n q h.1 st1 st2 trivial
    simp only [runCtes, h1, h2]
    cases a with
    | error e => exact ⟨_, _, s1, s2, rfl, rfl, nofun⟩
    | ok r =>
      simp only
      split
      · exact ⟨_, _, s1, s2, rfl, rfl, nofun⟩
      · obtain ⟨a, b, t1, t2, h1, h2, hafter⟩ := ih (hscope.insert name r) h.2 s1 s2
        simp only [h1, h2]
        exact ⟨_, _, t1, t2, rfl, rfl, hafter⟩

/-- Every view that could answer the statement is allowed. -/
def RewriteConfined {n : Nat} (allowed : String → Bool) (db : Database)
    (stmt : SelectStmt (Query n)) : Prop :=
  ∀ aggs, queryAggs stmt = some aggs → ∀ e ∈ db.views.entries,
    viewMatches stmt aggs e.2.spec = true → allowed e.1 = true

theorem find?_filter_of_imp {α : Type} {p q : α → Bool} {l : List α}
    (h : ∀ a ∈ l, p a → q a) : (l.filter q).find? p = l.find? p := by
  induction l with
  | nil => rfl
  | cons a l ih =>
    rw [forall_mem_cons] at h
    by_cases ha : p a
    · rw [filter_cons_of_pos (h.1 ha), find?_cons_of_pos ha, find?_cons_of_pos ha]
    rw [find?_cons_of_neg ha, filter_cons]
    split
    · rw [find?_cons_of_neg ha, ih h.2]
    · exact ih h.2

theorem tryRewrite_agree (hagree : AgreeOn allowed db1 db2) (h1 : RewriteConfined allowed db1 stmt)
    (h2 : RewriteConfined allowed db2 stmt) :
    tryRewrite stmt db1.views = tryRewrite stmt db2.views := by
  unfold tryRewrite
  split
  · split
    · rfl
    · rfl
    next aggs hnil haggs =>
      have hfind : (db1.views.entries.find? fun e => viewMatches stmt aggs e.2.spec) =
          db2.views.entries.find? fun e => viewMatches stmt aggs e.2.spec := by
        rw [← find?_filter_of_imp (h1 aggs haggs), hagree.views,
          find?_filter_of_imp (h2 aggs haggs)]
      rw [← hfind]
      cases hfound : db1.views.entries.find? fun e => viewMatches stmt aggs e.2.spec with
      | none => rfl
      | some e =>
        have hmatch : viewMatches stmt aggs e.2.spec := (find?_eq_some_iff_append.mp hfound).1
        have hallows := h1 aggs haggs e (mem_of_find?_eq_some hfound) hmatch
        simp [hagree.queryView hallows]
  · rfl

/-- A confined `SELECT` gives the same on databases that agree. -/
theorem runSelect_agree (hagree : AgreeOn allowed db1 db2)
    (h : EveryTopRead (ReadConfined allowed db1 db2) stmt) (h1 : RewriteConfined allowed db1 stmt)
    (h2 : RewriteConfined allowed db2 stmt) (st1 st2 : Stats) :
    (runSelect X env db1 stmt st1).outcome = (runSelect X env db2 stmt st2).outcome := by
  have hnone : InScope ∅ [] := fun t => by simp
  obtain ⟨a, defs, s1, s2, hc1, hc2, hafter⟩ := runCtes_agree X env hagree hnone h.1 st1 st2
  simp only [runSelect, hc1, hc2]
  cases a with
  | error o => rfl
  | ok ctes =>
    have hrewrite : tryRewrite { stmt with cteDefs := defs } db1.views =
        tryRewrite { stmt with cteDefs := defs } db2.views :=
      tryRewrite_agree hagree h1 h2
    have hbody : EveryBody (ReadConfined allowed db1 db2 (scopeAfter [] stmt.cteDefs))
        (EveryRead (ReadConfined allowed db1 db2) (scopeAfter [] stmt.cteDefs) n)
        { stmt with cteDefs := defs } :=
      ⟨h.2.whereClause, h.2.fromSubquery, h.2.rhs, h.2.named⟩
    obtain ⟨a, b, t1, t2, hr1, hr2, -⟩ :=
      execStep_paired (pairedSessions X env hagree (hafter ctes rfl))
        (execSelect_agree X env hagree (hafter ctes rfl) n) hbody s1 s2 trivial
    simp only [hrewrite]
    cases tryRewrite { stmt with cteDefs := defs } db2.views with
    | some view => rfl
    | none =>
      simp only [execSelect]
      rw [hr1, hr2]

end

end Zepto.Server
