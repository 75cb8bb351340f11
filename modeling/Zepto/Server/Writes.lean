import Zepto.Server.Confined

/-!
# What the other statements answer

The answers of the statements other than `SELECT` on two databases that agree on the allowed
names. A data change counts rows of one table. An `INSERT` goes by the id of the table, and a
rolled back schema change looks for another table of the same id (`OwnId`). `SHOW TABLES` lists
all tables and is filtered afterwards.
-/

namespace Zepto.Server

open List Zepto.Lib Zepto.Storage Zepto.Sql

/-! ## Data changes -/

section

variable {Q : Type} {env : Env} {dict : StringDictionary} {w : Option (Expr Q)}
  {change : RowChange}

theorem changePartitions_snd_filter (inTable : Partition → Bool) (ps : List Partition) :
    (changePartitions env dict w inTable change ps).2 =
      (changePartitions env dict w inTable change (ps.filter inTable)).2 := by
  induction ps with
  | nil => rfl
  | cons p ps ih =>
    by_cases hp : inTable p
    · rw [filter_cons_of_pos hp]
      unfold changePartitions
      split
      · exact ih
      · split
        · rfl
        · simp [ih]
    · rw [filter_cons_of_neg hp]
      rw [changePartitions, if_pos (by simp [hp])]
      exact ih

variable {allowed : String → Bool} {db1 db2 : Database} {t : String}

theorem inTable_of_id {db : Database} (h : db.registry.getTableId t ≠ 0) :
    db.inTable t = fun p => decide (p.key.tableId = db.registry.getTableId t) := by
  funext p
  have hknown := lookup_ne_none_of_getTableId h
  have hzero : decide (db.registry.getTableId t = 0) = false := decide_eq_false h
  simp only [Database.inTable, hknown, hzero, and_false, decide_false, Bool.not_false,
    Bool.true_and, Bool.false_or]

theorem inTable_of_unknown {db : Database}
    (h : t ≠ "" ∧ 0 < db.registry.tableCount ∧ db.registry.lookup t = none) :
    db.inTable t = fun _ => false := by
  funext p
  simp [Database.inTable, h]

section

variable (h : AgreeOn allowed db1 db2) (ht : allowed t = true) (h1 : Resolved db1 t)
  (h2 : Resolved db2 t)

include h ht h1 h2

theorem AgreeOn.inTable : db1.inTable t = db2.inTable t := by
  rcases h1 with hid | hnone1
  · rw [inTable_of_id hid, inTable_of_id (h.getTableId ht ▸ hid), h.getTableId ht]
  · rcases h2 with hid | hnone2
    · exact absurd (h.registry t ht ▸ hnone1.2.2) (lookup_ne_none_of_getTableId hid)
    · rw [inTable_of_unknown hnone1, inTable_of_unknown hnone2]

theorem changeTable_agree (env : Env) (w : Option (Expr Q)) (change : RowChange) (name : String) :
    (changeTable env db1 t w change name).1 = (changeTable env db2 t w change name).1 := by
  have hparts := h.findPartitions ht h1 h2
  rw [Database.findPartitions_eq_filter, Database.findPartitions_eq_filter] at hparts
  unfold changeTable
  simp only
  rw [changePartitions_snd_filter, changePartitions_snd_filter (db2.inTable t), hparts,
    h.symbolDict, h.inTable ht h1 h2]

end

end

/-! ## INSERT -/

/-- No other table has this one's id. -/
def OwnId (reg : SchemaRegistry) (t : String) : Prop :=
  ∀ e ∈ reg.entries, e.1 ≠ t → e.2.tableId ≠ reg.getTableId t

theorem getById_of_ownId {reg : SchemaRegistry} {t : String} {schema : TableSchema}
    (hown : OwnId reg t) (h : reg.lookup t = some schema) :
    reg.getById schema.tableId = some (t, schema) := by
  have hid : reg.getTableId t = schema.tableId := by
    unfold SchemaRegistry.getTableId
    rw [h]
  have hmem : (⟨t, schema⟩ : (_ : String) × TableSchema) ∈ reg.entries := AList.mem_lookup_iff.mp h
  unfold SchemaRegistry.getById
  cases hfind : reg.entries.find? fun e => e.2.tableId = schema.tableId with
  | none => exact absurd (find?_eq_none.mp hfind _ hmem) (by simp)
  | some e =>
    obtain ⟨name, found⟩ := e
    have hentry := mem_of_find?_eq_some hfind
    have hsame : found.tableId = schema.tableId := by
      simpa using (find?_eq_some_iff_append.mp hfind).1
    have hname : name = t := by
      by_contra hne
      exact hown _ hentry hne (hsame.trans hid.symm)
    subst hname
    have hlookup : reg.lookup name = some found := AList.mem_lookup_iff.mpr hentry
    have hfound : found = schema := Option.some.inj (hlookup.symm.trans h)
    rw [hfound]
    rfl

/-- The databases agree on what an `INSERT` into this table sees. -/
structure SameTable (id : TableId) (db1 db2 : Database) : Prop where
  schema : db1.registry.getById id = db2.registry.getById id
  partitions : partitionsForTable db1.partitions id = partitionsForTable db2.partitions id
  symbolDict : db1.symbolDict = db2.symbolDict

section

variable {α : Type} (key : PartitionKey)

theorem editIn_partitionsForTable (f : PartitionEdit α) (ps : List Partition) :
    editIn f key (partitionsForTable ps key.tableId) =
      (editIn f key ps).map fun r => (r.1, partitionsForTable r.2 key.tableId) := by
  induction ps with
  | nil => rfl
  | cons p ps ih =>
    unfold partitionsForTable at ih ⊢
    by_cases hp : p.key.tableId = key.tableId
    · rw [filter_cons_of_pos (by simpa using hp)]
      unfold editIn
      split
      next hkey =>
        have hedit : (f.edit p).2.key.tableId = key.tableId := by rw [f.key_edit, hp]
        simp only [Option.map_some]
        rw [filter_cons_of_pos (by simpa using hedit)]
      rw [ih]
      simp only [Option.map_map]
      refine congrArg (fun g => Option.map g (editIn f key ps)) ?_
      funext r
      simp only [Function.comp]
      rw [filter_cons_of_pos (by simpa using hp)]
    · have hkey : p.key ≠ key := fun h => hp (by rw [h])
      rw [filter_cons_of_neg (by simpa using hp), ih]
      rw [editIn, if_neg hkey, Option.map_map]
      refine congrArg (fun g => Option.map g (editIn f key ps)) ?_
      funext r
      simp only [Function.comp]
      rw [filter_cons_of_neg (by simpa using hp)]

theorem SameTable.editPartition {db1 db2 : Database} (h : SameTable key.tableId db1 db2)
    (arenaSize : Fin (2 ^ 32)) (f : PartitionEdit α) :
    (db1.editPartition arenaSize key f).1 = (db2.editPartition arenaSize key f).1 ∧
      SameTable key.tableId (db1.editPartition arenaSize key f).2
        (db2.editPartition arenaSize key f).2 := by
  have hedit := congrArg (editIn f key) h.partitions
  rw [editIn_partitionsForTable, editIn_partitionsForTable] at hedit
  have hparts := h.partitions
  unfold Database.editPartition
  split <;> rename_i heq1 <;> split <;> rename_i heq2 <;>
    rw [heq1, heq2] at hedit <;> simp only [Option.map_some] at hedit
  · obtain ⟨hanswer, hps⟩ := Prod.mk.inj (Option.some.inj hedit)
    exact ⟨hanswer, h.schema, hps, h.symbolDict⟩
  · cases hedit
  · cases hedit
  · refine ⟨rfl, h.schema, ?_, h.symbolDict⟩
    unfold partitionsForTable at hparts ⊢
    simp [hparts]

end

section

variable {id : TableId} {db1 db2 : Database}

theorem SameTable.setDict (h : SameTable id db1 db2) (dict : StringDictionary) :
    SameTable id { db1 with symbolDict := dict } { db2 with symbolDict := dict } :=
  ⟨h.schema, h.partitions, rfl⟩

theorem SameTable.ingestTypedRow (row : TypedRowMessage) (h : SameTable row.tableId db1 db2)
    (arenaSize : Fin (2 ^ 32)) :
    (ingestTypedRow arenaSize db1 row).1 = (ingestTypedRow arenaSize db2 row).1 ∧
      SameTable row.tableId (ingestTypedRow arenaSize db1 row).2
        (ingestTypedRow arenaSize db2 row).2 := by
  unfold Storage.ingestTypedRow
  split
  · exact ⟨rfl, h⟩
  rw [← h.schema, ← h.symbolDict]
  cases hid : db1.registry.getById row.tableId with
  | none => exact ⟨rfl, h⟩
  | some found =>
    obtain ⟨name, schema⟩ := found
    simp only
    split
    · exact ⟨rfl, h⟩
    split
    · exact ⟨rfl, h.setDict _⟩
    have hedit := (h.setDict (bindCodes db1.symbolDict row.columns).2).editPartition
      ⟨row.tableId, row.symbolId, toHourEpoch row.timestamp⟩ arenaSize
      ⟨fun p => p.addTypedRow schema row.columns, fun p => p.addTypedRow_key schema row.columns⟩
    rw [hedit.1]
    split
    · refine ⟨rfl, ?_, hedit.2.partitions, hedit.2.symbolDict⟩
      simp only [Database.editPartition_registry]
      rw [getById_markHasData hid, getById_markHasData (h.schema ▸ hid)]
    · exact hedit

theorem SameTable.insertRows (h : SameTable id db1 db2) (host : Host) (columns : List ColumnDef)
    (total : Nat) (rows : List (List InsertValue)) (inserted failed : Nat) :
    (insertRows host id columns total rows inserted failed db1).1 =
      (insertRows host id columns total rows inserted failed db2).1 := by
  induction rows generalizing db1 db2 inserted failed with
  | nil => rfl
  | cons row rows ih =>
    unfold insertRows
    split
    · rfl
    rw [← h.symbolDict]
    rcases buildRow (columns.zip row) {} db1.symbolDict with ⟨_ | b, dict⟩
    · rfl
    simp only
    have hrow := (h.setDict dict).ingestTypedRow
      { tableId := id, symbolId := b.symbolId
        timestamp := b.namedTimestamp.getD (b.typedTimestamp.getD host.env.now)
        columns := b.values } host.arenaSize
    rw [hrow.1]
    split
    all_goals exact ih hrow.2 _ _

end

section

variable {allowed : String → Bool} {db1 db2 : Database} {t : String}

variable {schema : TableSchema} {reg : SchemaRegistry} {e : (_ : String) × TableSchema}

theorem AgreeOn.sameTable (h : AgreeOn allowed db1 db2) (ht : allowed t)
    (hschema : db1.registry.lookup t = some schema) (h1 : OwnId db1.registry t)
    (h2 : OwnId db2.registry t) : SameTable schema.tableId db1 db2 := by
  have hschema2 : db2.registry.lookup t = some schema := h.registry t ht ▸ hschema
  have hid : db1.registry.getTableId t = schema.tableId := by
    unfold SchemaRegistry.getTableId
    rw [hschema]
  have hparts := h.partitions t ht (by simp [hschema])
  rw [hid] at hparts
  exact ⟨by rw [getById_of_ownId h1 hschema, getById_of_ownId h2 hschema2], hparts, h.symbolDict⟩

theorem execInsert_agree (h : AgreeOn allowed db1 db2) (host : Host) {stmt : InsertStmt}
    (ht : allowed stmt.tableName) (h1 : OwnId db1.registry stmt.tableName)
    (h2 : OwnId db2.registry stmt.tableName) :
    (execInsert host db1 stmt).1 = (execInsert host db2 stmt).1 := by
  unfold execInsert
  rw [← h.registry _ ht]
  cases hschema : db1.registry.lookup stmt.tableName with
  | none =>
    simp only [← h.symbolDict, ← h.getTableId ht]
    split <;> rfl
  | some schema =>
    simp only
    split
    · rfl
    · exact (h.sameTable ht hschema h1 h2).insertRows host _ _ _ 0 0

/-! ## Schema changes -/

/-- A registry with old entries and the table's own can be rolled back. -/
theorem restorable_of_ownId {reg' : SchemaRegistry} (hown : OwnId reg t)
    (hschema : reg.lookup t = some schema) (hsub : ∀ e ∈ reg'.entries, e.1 = t ∨ e ∈ reg.entries) :
    restorable reg' t schema = (decide (t ≠ "") && decide (schema.tableId ≠ 0)) := by
  have hid : reg.getTableId t = schema.tableId := by
    unfold SchemaRegistry.getTableId
    rw [hschema]
  have hall : (reg'.entries.all fun e => e.1 = t || e.2.tableId ≠ schema.tableId) := by
    rw [all_eq_true]
    intro e he
    rcases hsub e he with hname | hold
    · simp [hname]
    by_cases hname : e.1 = t
    · simp [hname]
    · have hne := hown e hold hname
      rw [hid] at hne
      simp [hne]
  unfold restorable
  rw [hall, Bool.and_true]

theorem persistSchema_agree {reg1 reg2 : SchemaRegistry}
    (h : restorable reg1 t schema = restorable reg2 t schema) (host : Host) (db1 db2 : Database)
    (failure msg : String) : (persistSchema host db1 t schema reg1 failure msg).1 =
      (persistSchema host db2 t schema reg2 failure msg).1 := by
  unfold persistSchema
  rw [h]
  split
  · rfl
  · split <;> rfl

theorem mem_entries_modifySchema {f : TableSchema → TableSchema}
    (h : e ∈ (modifySchema reg t f).entries) : e.1 = t ∨ e ∈ reg.entries := by
  unfold modifySchema at h
  split at h
  · rw [AList.entries_insert] at h
    rcases mem_cons.mp h with rfl | h
    · exact .inl rfl
    · exact .inr ((kerase_sublist t reg.entries).mem h)
  · exact .inr h

theorem execDropTable_agree (h : AgreeOn allowed db1 db2) (host : Host) {stmt : DropTableStmt}
    (ht : allowed stmt.tableName) (h1 : OwnId db1.registry stmt.tableName)
    (h2 : OwnId db2.registry stmt.tableName) :
    (execDropTable host db1 stmt).1 = (execDropTable host db2 stmt).1 := by
  unfold execDropTable
  have hlookup := h.registry _ ht
  rw [← hlookup]
  cases hschema : db1.registry.lookup stmt.tableName with
  | none =>
    simp only
    split <;> rfl
  | some schema =>
    rw [hschema] at hlookup
    refine congrArg Except.ok (persistSchema_agree ?_ host db1 db2 _ _)
    rw [restorable_of_ownId h1 hschema fun e he => .inr (mem_of_mem_eraseP he),
      restorable_of_ownId h2 hlookup.symm fun e he => .inr (mem_of_mem_eraseP he)]

/-- The answer tells how many partitions of any table have the column. -/
def AlterAction.countsPartitions : AlterAction → Bool
  | .setAttribute _ _ => true
  | _ => false

theorem execAlterTable_agree (h : AgreeOn allowed db1 db2) (host : Host) {stmt : AlterTableStmt}
    (ht : allowed stmt.tableName) (h1 : OwnId db1.registry stmt.tableName)
    (h2 : OwnId db2.registry stmt.tableName)
    (hcount : AlterAction.countsPartitions stmt.action = false) :
    (execAlterTable host db1 stmt).1 = (execAlterTable host db2 stmt).1 := by
  unfold execAlterTable
  have hlookup := h.registry _ ht
  rw [← hlookup]
  cases hschema : db1.registry.lookup stmt.tableName with
  | none => rfl
  | some schema =>
    rw [hschema] at hlookup
    have hpersist (f : TableSchema → TableSchema) (failure msg : String) :
        (persistSchema host db1 stmt.tableName schema
          (modifySchema db1.registry stmt.tableName f) failure msg).1 =
        (persistSchema host db2 stmt.tableName schema
          (modifySchema db2.registry stmt.tableName f) failure msg).1 := by
      refine persistSchema_agree ?_ host db1 db2 _ _
      rw [restorable_of_ownId h1 hschema fun e he => mem_entries_modifySchema he,
        restorable_of_ownId h2 hlookup.symm fun e he => mem_entries_modifySchema he]
    cases haction : stmt.action with
    | addColumn col =>
      simp only
      cases col.toColumnDef with
      | error e => rfl
      | ok c => exact congrArg Except.ok (hpersist _ _ _)
    | dropColumn col =>
      simp only
      split
      · exact congrArg Except.ok (hpersist _ _ _)
      · rfl
    | setAttribute col attr =>
      rw [haction] at hcount
      cases hcount
    | setStoragePolicy warm cold drop =>
      simp only
      split <;> rfl
    | setTtl value unit => exact congrArg Except.ok (hpersist _ _ _)

/-- Creating the table fails only if it exists. -/
def HasFreeId (reg : SchemaRegistry) (t : String) : Prop :=
  reg.lookup t ≠ none ∨ freeTableId reg 65535 (stableTableId t) ≠ 0

theorem createSchema_isSome (h : HasFreeId reg t) (columns : List ColumnDef) :
    (createSchema reg t columns).isSome = (reg.lookup t).isNone := by
  unfold createSchema
  cases hlookup : reg.lookup t with
  | some schema => rfl
  | none =>
    have hfree := h.resolve_left (fun hne => hne hlookup)
    rw [if_neg hfree]
    rfl

section

variable (h : AgreeOn allowed db1 db2)

include h

theorem execCreateTable_agree (host : Host) {stmt : CreateTableStmt}
    (ht : allowed stmt.tableName) (h1 : HasFreeId db1.registry stmt.tableName)
    (h2 : HasFreeId db2.registry stmt.tableName) :
    (execCreateTable host db1 stmt).1 = (execCreateTable host db2 stmt).1 := by
  unfold execCreateTable
  split
  · rfl
  rename_i columns _
  split
  · rfl
  have hsome1 := createSchema_isSome h1 columns
  have hsome2 := createSchema_isSome h2 columns
  rw [← h.registry _ ht, ← hsome1] at hsome2
  cases hc1 : createSchema db1.registry stmt.tableName columns <;>
    cases hc2 : createSchema db2.registry stmt.tableName columns <;>
    rw [hc1, hc2] at hsome2
  · simp only
    split <;> rfl
  · cases hsome2
  · cases hsome2
  · simp only
    split <;> rfl

/-! ## Views and looking at the schema -/

theorem execCreateMV_agree {Q : Type} {stmt : CreateMVStmt Q} (ht : allowed stmt.viewName) :
    (execCreateMV db1 stmt).1 = (execCreateMV db2 stmt).1 := by
  unfold execCreateMV
  rw [← h.view ht]
  split
  · rfl
  · split <;> rfl

theorem execDropMV_agree {stmt : DropMVStmt} (ht : allowed stmt.viewName) :
    (execDropMV db1 stmt).1 = (execDropMV db2 stmt).1 := by
  unfold execDropMV
  rw [← h.view ht]
  split <;> rfl

theorem describeTable_agree (ht : allowed t) : describeTable db1 t = describeTable db2 t := by
  unfold describeTable
  rw [h.registry t ht]

end

def shownNames (db : Database) : List String :=
  (db.registry.entries.map fun e => e.1).mergeSort fun a b => a ≤ b

theorem shownNames_pairwise (db : Database) : (shownNames db).Pairwise (· ≤ ·) := by
  have hsorted : (shownNames db).Pairwise fun a b => decide (a ≤ b) := by
    refine pairwise_mergeSort (fun a b c hab hbc => ?_) (fun a b => ?_) _
    · simp only [decide_eq_true_eq] at hab hbc ⊢
      exact String.le_trans hab hbc
    · simpa using String.le_total a b
  exact hsorted.imp fun h => of_decide_eq_true h

theorem mem_keys_iff_lookup : t ∈ reg.entries.map (fun e => e.1) ↔ (reg.lookup t).isSome :=
  AList.lookup_isSome.symm

theorem AgreeOn.shownNames_filter (h : AgreeOn allowed db1 db2) :
    (shownNames db1).filter allowed = (shownNames db2).filter allowed := by
  have hnodup (db : Database) : ((db.registry.entries.map fun e => e.1).filter allowed).Nodup :=
    .filter _ db.registry.nodupKeys
  have hperm : ((db1.registry.entries.map fun e => e.1).filter allowed).Perm
      ((db2.registry.entries.map fun e => e.1).filter allowed) := by
    rw [perm_ext_iff_of_nodup (hnodup db1) (hnodup db2)]
    intro a
    simp only [mem_filter, mem_keys_iff_lookup]
    constructor
    · rintro ⟨hmem, ha⟩
      exact ⟨h.registry a ha ▸ hmem, ha⟩
    · rintro ⟨hmem, ha⟩
      exact ⟨(h.registry a ha).symm ▸ hmem, ha⟩
  have hsort (db : Database) : ((shownNames db).filter allowed).Perm
      ((db.registry.entries.map fun e => e.1).filter allowed) :=
    (mergeSort_perm _ _).filter _
  refine Perm.eq_of_pairwise (fun a b _ _ hab hba => String.le_antisymm hab hba)
    ((shownNames_pairwise db1).filter _) ((shownNames_pairwise db2).filter _) ?_
  exact (hsort db1).trans (hperm.trans (hsort db2).symm)

theorem filter_zip_map {α β : Type} (p : α → Bool) (f : α → β) (l : List α) :
    ((l.zip (l.map f)).filter fun e => p e.1) = (l.filter p).map fun a => (a, f a) := by
  rw [← map_prod_left_eq_zip, filter_map]
  rfl

theorem filterShowTables_agree {req : Request} (h : AgreeOn req.allows db1 db2) :
    filterShowTables req (showTables db1) = filterShowTables req (showTables db2) := by
  let row (db : Database) (name : String) : List Int :=
    [(((partitionsForTable db.partitions (db.registry.getTableId name)).map
      Partition.numRows).sum : Int)]
  have hfilter (db : Database) : filterShowTables req (showTables db) =
      { columnNames := ["name", "rows"]
        columnTypes := [.symbol, .int64]
        stringRows := (shownNames db).filter req.allows
        rows := ((shownNames db).filter req.allows).map (row db) } := by
    have hzip := filter_zip_map req.allows (row db) (shownNames db)
    unfold filterShowTables
    simp only [showTables]
    simp only [shownNames, row] at hzip ⊢
    simp only [hzip]
    simp [Function.comp_def]
  rw [hfilter, hfilter, ← h.shownNames_filter]
  have hrows : ((shownNames db1).filter req.allows).map (row db1) =
      ((shownNames db1).filter req.allows).map (row db2) := by
    refine map_congr_left fun name hname => ?_
    obtain ⟨hshown, hallows⟩ := mem_filter.mp hname
    have hknown : db1.registry.lookup name ≠ none := by
      have hmem := (mergeSort_perm _ _).mem_iff.mp hshown
      rw [← Option.isSome_iff_ne_none]
      exact mem_keys_iff_lookup.mp hmem
    simp only [row]
    rw [← h.getTableId hallows, h.partitions name hallows hknown]
  rw [hrows]

end

end Zepto.Server
