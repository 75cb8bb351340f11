import Zepto.Sql.Ddl
import Zepto.Storage.Ingest

/-!
# What ALTER TABLE leaves alone

`alterTable` is `exec_alter_table` with the time to live that the flush manager enforces on all
partitions. The schemas of the other tables stay (`TableFrame.schema`). Their partitions and their
retention stay exactly when `AlterScoped` holds: an attribute goes to every partition with a column
of that name, a time to live to every table.
-/

namespace Zepto.Sql

open List Zepto.Lib Zepto.Storage

/-- A database and the time to live of its flush manager. -/
structure Retained where
  db : Database
  flushTtl : Int := 0

/-- `min_ttl_ns`: 0 if no table has a time to live. -/
def minTtlNs (reg : SchemaRegistry) : Int :=
  reg.entries.foldl (fun m e => if e.2.ttlNs > 0 ∧ (m = 0 ∨ e.2.ttlNs < m) then e.2.ttlNs else m) 0

/-- What `SET TTL` hands to the flush manager. -/
def nextFlushTtl (reg : SchemaRegistry) (ttl : Int) : Int :=
  if minTtlNs reg > 0 then minTtlNs reg else ttl

/-- A `SET TTL` that goes through and limits the age of partitions. -/
def ttlApplies (host : Host) (db : Database) (table : String) (ttl : Int) : Prop :=
  (db.registry.lookup table).isSome ∧ host.catalogSaved ∧ ttl > 0

instance (host : Host) (db : Database) (table : String) (ttl : Int) :
    Decidable (ttlApplies host db table ttl) :=
  inferInstanceAs (Decidable (_ ∧ _))

/-- `exec_alter_table` with the flush manager. -/
def alterTable (host : Host) (s : Retained) (stmt : AlterTableStmt) :
    Except String QueryResult × Retained :=
  let r := execAlterTable host s.db stmt
  let flushTtl :=
    match stmt.action with
    | .setTtl value unit =>
      if ttlApplies host s.db stmt.tableName (ttlNs value unit) ∧ host.flushManager then
        nextFlushTtl r.2.registry (ttlNs value unit)
      else s.flushTtl
    | _ => s.flushTtl
  (r.1, { db := r.2, flushTtl })

def ofOther (db : Database) (table : String) (p : Partition) : Bool :=
  p.key.tableId ≠ db.registry.getTableId table

structure SamePartition (p p' : Partition) : Prop where
  key : p'.key = p.key
  columns : p'.columns = p.columns
  mem : p'.mem = p.mem
  sorted : ∀ col, p'.isSorted col = p.isSorted col
  grouped : ∀ col, p'.groupedIndexes.lookup col = p.groupedIndexes.lookup col
  parted : ∀ col, p'.partedIndexes.lookup col = p.partedIndexes.lookup col

theorem SamePartition.refl (p : Partition) : SamePartition p p :=
  ⟨rfl, rfl, rfl, fun _ => rfl, fun _ => rfl, fun _ => rfl⟩

/-- There is something of another table that a time to live can apply to. -/
def HasOthers (db : Database) (table : String) : Prop :=
  (∃ name, name ≠ table ∧ (db.registry.lookup name).isSome) ∨
    ∃ p ∈ db.partitions, ofOther db table p = true

/-- Nothing changes for the tables other than the named one. -/
structure TableFrame (table : String) (s s' : Retained) : Prop where
  schema : ∀ name, name ≠ table → s'.db.registry.lookup name = s.db.registry.lookup name
  partitions : Forall₂ SamePartition (s.db.partitions.filter (ofOther s.db table))
    (s'.db.partitions.filter (ofOther s.db table))
  retention : HasOthers s.db table → s'.flushTtl = s.flushTtl

/-- The column already has the attribute that setting it would leave. -/
def HasAttribute (attr col : String) (p : Partition) : Prop :=
  if attr = "SORTED" then p.isSorted col = true
  else if attr = "GROUPED" then
    p.groupedIndexes.lookup col = (p.setGrouped col).groupedIndexes.lookup col
  else if attr = "PARTED" then
    p.partedIndexes.lookup col = (p.setParted col).partedIndexes.lookup col
  else True

/-- The statement reaches nothing of another table. -/
def AlterScoped (host : Host) (s : Retained) (stmt : AlterTableStmt) : Prop :=
  match stmt.action with
  | .setAttribute col attr =>
    (s.db.registry.lookup stmt.tableName).isSome → ∀ p ∈ s.db.partitions,
      ofOther s.db stmt.tableName p = true → (p.getColumn col).isSome → HasAttribute attr col p
  | .setTtl value unit =>
    ttlApplies host s.db stmt.tableName (ttlNs value unit) →
      (∀ p ∈ s.db.partitions, ofOther s.db stmt.tableName p = true →
        ¬p.key.hourEpoch < wrap64 (host.env.now - ttlNs value unit)) ∧
      (host.flushManager → HasOthers s.db stmt.tableName →
        nextFlushTtl (modifySchema s.db.registry stmt.tableName fun sch =>
          { sch with ttlNs := ttlNs value unit }) (ttlNs value unit) = s.flushTtl)
  | _ => True

/-! ## Attributes -/

theorem isSorted_setSorted (p : Partition) (col name : String) :
    (p.setSorted col).isSorted name = (decide (name = col) || p.isSorted name) := by
  simp [Partition.isSorted, Partition.setSorted]

/-- Setting an attribute changes nothing exactly where it is there already. -/
theorem samePartition_setAttribute (attr col : String) (p : Partition) :
    SamePartition p (setAttribute attr col p) ↔ HasAttribute attr col p := by
  unfold setAttribute HasAttribute
  split
  · constructor
    · intro h
      have := h.sorted col
      rw [isSorted_setSorted] at this
      simpa using this.symm
    · intro h
      refine ⟨rfl, rfl, rfl, fun name => ?_, fun _ => rfl, fun _ => rfl⟩
      rw [isSorted_setSorted]
      by_cases hname : name = col
      · simp [hname, h]
      · simp [hname]
  · split
    · obtain ⟨g, hg, hne⟩ := p.setGrouped_eq col
      rw [hg]
      refine ⟨fun h => (h.grouped col).symm, fun h => ?_⟩
      refine ⟨rfl, rfl, rfl, fun _ => rfl, fun name => ?_, fun _ => rfl⟩
      by_cases hname : name = col
      · rw [hname, h]
      · exact hne name hname
    · split
      · obtain ⟨g, hg, hne⟩ := p.setParted_eq col
        rw [hg]
        refine ⟨fun h => (h.parted col).symm, fun h => ?_⟩
        refine ⟨rfl, rfl, rfl, fun _ => rfl, fun _ => rfl, fun name => ?_⟩
        by_cases hname : name = col
        · rw [hname, h]
        · exact hne name hname
      · exact ⟨fun _ => trivial, fun _ => .refl p⟩

theorem setAttributes_frame (db : Database) (table attr col : String) :
    Forall₂ SamePartition (db.partitions.filter (ofOther db table))
        ((setAttributes db attr col).partitions.filter (ofOther db table)) ↔
      ∀ p ∈ db.partitions, ofOther db table p → (p.getColumn col).isSome →
        HasAttribute attr col p := by
  have hkey : (ofOther db table ∘ fun p : Partition =>
      if (p.getColumn col).isSome then setAttribute attr col p else p) = ofOther db table := by
    funext p
    simp only [Function.comp, ofOther]
    split
    · rw [(setAttribute_frame attr col p).1]
    · rfl
  rw [setAttributes, filter_map, hkey, forall₂_map_right_iff, forall₂_same]
  constructor
  · intro h p hp hother hcol
    have hsame := h p (mem_filter.mpr ⟨hp, hother⟩)
    rwa [if_pos hcol, samePartition_setAttribute] at hsame
  intro h p hp
  obtain ⟨hp, hother⟩ := mem_filter.mp hp
  split
  next hcol =>
    exact (samePartition_setAttribute attr col p).mpr (h p hp hother hcol)
  · exact .refl p

/-! ## Eviction -/

theorem keepPartitions_frame (db : Database) (table : String) (keep : Partition → Bool) :
    Forall₂ SamePartition (db.partitions.filter (ofOther db table))
        ((keepPartitions db keep).partitions.filter (ofOther db table)) ↔
      ∀ p ∈ db.partitions, ofOther db table p → keep p := by
  have hswap : (keepPartitions db keep).partitions.filter (ofOther db table) =
      (db.partitions.filter (ofOther db table)).filter keep := by
    rw [keepPartitions, filter_filter, filter_filter]
    exact filter_congr fun p _ => Bool.and_comm _ _
  rw [hswap]
  constructor
  · intro h p hp hother
    have hall := length_filter_eq_length_iff.mp h.length_eq.symm
    exact hall p (mem_filter.mpr ⟨hp, hother⟩)
  intro h
  rw [filter_eq_self.mpr fun p hp => h p (mem_filter.mp hp).1 (mem_filter.mp hp).2]
  exact forall₂_same.mpr fun p _ => .refl p

theorem lookup_modifySchema_ne (reg : SchemaRegistry) {table name : String} (h : name ≠ table)
    (f : TableSchema → TableSchema) : (modifySchema reg table f).lookup name = reg.lookup name := by
  unfold modifySchema
  split
  · exact AList.lookup_insert_ne h
  · rfl

theorem persistSchema_partitions (host : Host) (db : Database) (table : String)
    (schema : TableSchema) (reg : SchemaRegistry) (failure msg : String) :
    (persistSchema host db table schema reg failure msg).2.partitions = db.partitions := by
  unfold persistSchema
  split_ifs <;> rfl

theorem tableFrame_of_same {table : String} {s s' : Retained}
    (hpart : s'.db.partitions = s.db.partitions)
    (hreg : ∀ name, name ≠ table → s'.db.registry.lookup name = s.db.registry.lookup name)
    (httl : s'.flushTtl = s.flushTtl) : TableFrame table s s' where
  schema := hreg
  partitions := by
    rw [hpart]
    exact forall₂_same.mpr fun p _ => .refl p
  retention _ := httl

/-- A change of the schema that may be rolled back stays with its table. -/
theorem tableFrame_persistSchema (host : Host) (s : Retained) (table : String)
    (schema : TableSchema) (f : TableSchema → TableSchema) (failure msg : String) :
    TableFrame table s { s with
      db := (persistSchema host s.db table schema (modifySchema s.db.registry table f)
        failure msg).2 } := by
  refine tableFrame_of_same (persistSchema_partitions ..) (fun name hname => ?_) rfl
  have hne := lookup_modifySchema_ne s.db.registry hname f
  unfold persistSchema
  split_ifs
  · exact hne
  · rfl
  · exact hne

/-! ## The statement -/

section

variable {host : Host} {s : Retained} {stmt : AlterTableStmt} {schema : TableSchema}

theorem alterTable_of_none (h : s.db.registry.lookup stmt.tableName = none) :
    (alterTable host s stmt).2 = s := by
  have hnot (ttl : Int) : ¬ttlApplies host s.db stmt.tableName ttl := by simp [ttlApplies, h]
  unfold alterTable execAlterTable
  simp only [h, hnot]
  split <;> rfl

section

variable (h : s.db.registry.lookup stmt.tableName = some schema)

include h

theorem alter_frame_attribute {col attr : String} (hact : stmt.action = .setAttribute col attr) :
    TableFrame stmt.tableName s (alterTable host s stmt).2 ↔ AlterScoped host s stmt := by
  have hdb : (alterTable host s stmt).2 = { s with db := setAttributes s.db attr col } := by
    simp [alterTable, execAlterTable, h, hact]
  have hcond : AlterScoped host s stmt ↔ ∀ p ∈ s.db.partitions,
      ofOther s.db stmt.tableName p → (p.getColumn col).isSome → HasAttribute attr col p := by
    simp [AlterScoped, hact, h]
  rw [hdb, hcond, ← setAttributes_frame]
  exact ⟨fun hframe => hframe.partitions, fun hparts => ⟨fun _ _ => rfl, hparts, fun _ => rfl⟩⟩

theorem alter_frame_ttl {value : Int} {unit : String} (hact : stmt.action = .setTtl value unit) :
    TableFrame stmt.tableName s (alterTable host s stmt).2 ↔ AlterScoped host s stmt := by
  obtain ⟨ttl, httl⟩ : ∃ ttl, ttlNs value unit = ttl := ⟨_, rfl⟩
  by_cases happ : ttlApplies host s.db stmt.tableName ttl
  · obtain ⟨reg, hreg⟩ : ∃ reg, modifySchema s.db.registry stmt.tableName
        (fun sch => { sch with ttlNs := ttl }) = reg := ⟨_, rfl⟩
    have hnext : (alterTable host s stmt).2 = ⟨keepPartitions { s.db with registry := reg }
            fun p => ¬p.key.hourEpoch < wrap64 (host.env.now - ttl),
          if host.flushManager then nextFlushTtl reg ttl else s.flushTtl⟩ := by
      simp [alterTable, execAlterTable, h, hact, httl, hreg, persistSchema, happ, happ.2.1,
        happ.2.2, keepPartitions]
    have hcond : AlterScoped host s stmt ↔ (∀ p ∈ s.db.partitions, ofOther s.db stmt.tableName p →
          ¬p.key.hourEpoch < wrap64 (host.env.now - ttl)) ∧
        (host.flushManager → HasOthers s.db stmt.tableName →
          nextFlushTtl reg ttl = s.flushTtl) := by
      simp [AlterScoped, hact, httl, hreg, happ]
    have hparts := keepPartitions_frame s.db stmt.tableName
      fun p => ¬p.key.hourEpoch < wrap64 (host.env.now - ttl)
    simp only [decide_eq_true_eq] at hparts
    rw [hcond, ← hparts, hnext]
    constructor
    · refine fun hframe => ⟨hframe.partitions, fun hfm hothers => ?_⟩
      simpa [hfm] using hframe.retention hothers
    rintro ⟨hkept, hret⟩
    refine ⟨fun name hname => ?_, hkept, fun hothers => ?_⟩
    · exact hreg ▸ lookup_modifySchema_ne _ hname _
    split
    next hfm =>
      exact hret hfm hothers
    · rfl
  · have hnot : ¬(host.catalogSaved ∧ ttl > 0) := fun hboth => happ ⟨by simp [h], hboth⟩
    have hcond : AlterScoped host s stmt := by
      simp only [AlterScoped, hact, httl]
      exact fun hyes => absurd hyes happ
    refine iff_of_true ?_ hcond
    simp only [alterTable, execAlterTable, h, hact, httl, happ, hnot]
    exact tableFrame_persistSchema ..

theorem alter_frame_columns
    (hact : (∃ col, stmt.action = .addColumn col) ∨ ∃ col, stmt.action = .dropColumn col) :
    TableFrame stmt.tableName s (alterTable host s stmt).2 := by
  rcases hact with ⟨col, hact⟩ | ⟨col, hact⟩
  · simp only [alterTable, execAlterTable, h, hact]
    cases col.toColumnDef with
    | error e => exact tableFrame_of_same rfl (fun _ _ => rfl) rfl
    | ok c => exact tableFrame_persistSchema ..
  · simp only [alterTable, execAlterTable, h, hact]
    split
    · exact tableFrame_persistSchema ..
    · exact tableFrame_of_same rfl (fun _ _ => rfl) rfl

end

/-- An `ALTER TABLE` is scoped to its table exactly under the condition. -/
theorem alter_frame_iff (host : Host) (s : Retained) (stmt : AlterTableStmt)
    (hact : ∀ warm cold drop, stmt.action ≠ .setStoragePolicy warm cold drop) :
    TableFrame stmt.tableName s (alterTable host s stmt).2 ↔ AlterScoped host s stmt := by
  cases h : s.db.registry.lookup stmt.tableName with
  | none =>
    rw [alterTable_of_none h]
    refine iff_of_true (tableFrame_of_same rfl (fun _ _ => rfl) rfl) ?_
    unfold AlterScoped
    split <;> simp [ttlApplies, h]
  | some schema =>
    cases ha : stmt.action with
    | setAttribute col attr => exact alter_frame_attribute h ha
    | setTtl value unit => exact alter_frame_ttl h ha
    | setStoragePolicy warm cold drop => exact absurd ha (hact warm cold drop)
    | addColumn col =>
      refine iff_of_true (alter_frame_columns h (.inl ⟨col, ha⟩)) ?_
      simp [AlterScoped, ha]
    | dropColumn col =>
      refine iff_of_true (alter_frame_columns h (.inr ⟨col, ha⟩)) ?_
      simp [AlterScoped, ha]

end

/-- The tables `quotes` and `trades`, with one empty hour of `trades`. -/
def twoTables : Retained where
  db :=
    { registry := .insert "quotes" { columns := [], tableId := 1 }
        (.insert "trades" { columns := [], tableId := 2 } ∅)
      partitions := [.new 0 ⟨2, 7, 0⟩]
      keys_nodup := nodup_singleton _ }

def thirdDay : Host := { env := { now := 172800000000000 } }

/-- `ALTER TABLE quotes SET TTL 1 DAYS` evicts the hour of `trades`. -/
theorem ttl_evicts_other_table : ¬TableFrame "quotes" twoTables
      (alterTable thirdDay twoTables ⟨"quotes", .setTtl 1 "DAYS"⟩).2 := by
  intro h
  have hlen := h.partitions.length_eq
  revert hlen
  decide +kernel

theorem long_ttl_is_scoped :
    TableFrame "quotes" twoTables
      (alterTable thirdDay twoTables ⟨"quotes", .setTtl 3 "DAYS"⟩).2 := by
  refine (alter_frame_iff thirdDay twoTables ⟨"quotes", .setTtl 3 "DAYS"⟩ (by simp)).mpr ?_
  refine fun _ => ⟨fun p hp _ => ?_, fun hfm => by cases hfm⟩
  rw [mem_singleton.mp hp]
  decide +kernel

end Zepto.Sql
