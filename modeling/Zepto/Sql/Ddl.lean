import Zepto.Catalog.Registry
import Zepto.Sql.Delete
import Zepto.Sql.Update
import Zepto.Storage.Ingest

/-!
# Statements and schema changes

The statements other than `SELECT`, and the executors of those that change the schema, the
attributes or the views. Each returns its result and the database it leaves. What the process
around the executor decides (the clock, whether the catalog could be written, whether a flush
manager runs) is the `Host`.
-/

namespace Zepto.Sql

open Zepto.Lib Zepto.Storage

def defaultArenaSize : Fin (2 ^ 32) := ⟨33554432, by decide⟩

def defaultQueue : TickQueue := ⟨.new 65536 ⟨16, rfl⟩ (by decide), rfl⟩

/-- The process around the executor during a call. -/
structure Host where
  env : Env
  /-- `save_schema_catalog` succeeds. -/
  catalogSaved : Bool := true
  flushManager : Bool := false
  /-- The steady clock in milliseconds. -/
  steadyMs : Nat := 0
  /-- The arena of a new partition; a column counts the bytes of its block in 32 bits. -/
  arenaSize : Fin (2 ^ 32) := defaultArenaSize
  queue : TickQueue := defaultQueue

structure DdlColumnDef where
  column : String
  typeStr : String
  deriving DecidableEq

structure CreateTableStmt where
  tableName : String
  columns : List DdlColumnDef
  ifNotExists : Bool := false
  placementPolicy : Option String := none
  placementNodeId : Option Nat := none
  deriving DecidableEq

structure DropTableStmt where
  tableName : String
  ifExists : Bool := false
  deriving DecidableEq

inductive AlterAction where
  | addColumn (col : DdlColumnDef)
  | dropColumn (col : String)
  | setTtl (value : Int) (unit : String)
  | setAttribute (col attr : String)
  | setStoragePolicy (warmAfterNs coldAfterNs dropAfterNs : Int)
  deriving DecidableEq

structure AlterTableStmt where
  tableName : String
  action : AlterAction
  deriving DecidableEq

inductive InsertValue where
  | int (i : Int)
  | float (f : Float)
  | string (s : String)

structure InsertStmt where
  tableName : String
  columns : List String := []
  valueRows : List (List InsertValue)

structure CreateMVStmt (Q : Type) where
  viewName : String
  query : SelectStmt Q

structure DropMVStmt where
  viewName : String
  deriving DecidableEq

inductive Statement (Q : Type) where
  | select (stmt : SelectStmt Q)
  | createTable (stmt : CreateTableStmt)
  | dropTable (stmt : DropTableStmt)
  | alterTable (stmt : AlterTableStmt)
  | insert (stmt : InsertStmt)
  | update (stmt : UpdateStmt Q)
  | delete (stmt : DeleteStmt Q)
  | createMV (stmt : CreateMVStmt Q)
  | dropMV (stmt : DropMVStmt)
  | showTables
  | describeTable (name : String)

def ddlOk (msg : String) : QueryResult := { columnNames := ["result"], stringRows := [msg] }

def ddlTypeFromStr (t : String) : Except String ColumnType :=
  if t ∈ ["INT64", "BIGINT", "LONG"] then .ok .int64
  else if t ∈ ["INT32", "INT", "INTEGER"] then .ok .int32
  else if t ∈ ["FLOAT64", "DOUBLE"] then .ok .float64
  else if t ∈ ["FLOAT32", "FLOAT", "REAL"] then .ok .float32
  else if t ∈ ["TIMESTAMP", "TIMESTAMP_NS"] then .ok .timestampNs
  else if t = "SYMBOL" then .ok .symbol
  else if t ∈ ["STRING", "VARCHAR", "TEXT"] then .ok .string
  else if t ∈ ["BOOL", "BOOLEAN"] then .ok .bool
  else .error ("Unknown DDL column type: " ++ t)

def DdlColumnDef.toColumnDef (c : DdlColumnDef) : Except String ColumnDef := do
  pure { name := c.column, type := ← ddlTypeFromStr c.typeStr }

/-! ## The schema registry -/

/-- A name as the catalog has it. -/
def nameBytes (name : String) : List Char := name.toUTF8.data.toList.map .ofUInt8

def stableTableId (name : String) : TableId := Catalog.stableTableId (nameBytes name)

/-- The first free id; 0 if the rounds run out. -/
def freeTableId (reg : SchemaRegistry) : Nat → TableId → TableId :=
  Catalog.probe fun id => reg.entries.any fun e => e.2.tableId = id

/-- `create`: nothing if the name is taken or there is no free id. -/
def createSchema (reg : SchemaRegistry) (name : String) (columns : List ColumnDef) :
    Option SchemaRegistry :=
  if (reg.lookup name).isSome then none
  else
    let tableId := freeTableId reg 65535 (stableTableId name)
    if tableId = 0 then none else some (reg.insert name { columns, tableId })

def modifySchema (reg : SchemaRegistry) (name : String) (f : TableSchema → TableSchema) :
    SchemaRegistry :=
  match reg.lookup name with
  | some schema => reg.insert name (f schema)
  | none => reg

/-- `placement_policy` and `node_id` that do not go together. -/
def placementError (stmt : CreateTableStmt) : Option String :=
  match stmt.placementPolicy with
  | none => none
  | some policy =>
    if policy.toLower ∈ ["hash_by_table_and_symbol", "default", "hash_by_table"] then
      if stmt.placementNodeId.isSome then some "placement node_id is only valid for pinned_node"
      else none
    else if policy.toLower = "pinned_node" then
      if stmt.placementNodeId.getD 0 = 0 then some "pinned_node placement requires node_id"
      else none
    else some ("unsupported table placement policy: " ++ policy)

def execCreateTable (host : Host) (db : Database) (stmt : CreateTableStmt) :
    Except String QueryResult × Database :=
  match stmt.columns.mapM DdlColumnDef.toColumnDef with
  | .error e => (.error e, db)
  | .ok columns =>
    match placementError stmt with
    | some e => (.ok (.failed e), db)
    | none =>
      match createSchema db.registry stmt.tableName columns with
      | none =>
        if stmt.ifNotExists then
          (.ok (ddlOk ("Table '" ++ stmt.tableName ++ "' already exists (IF NOT EXISTS)")), db)
        else (.ok (.failed ("Table '" ++ stmt.tableName ++ "' already exists")), db)
      | some registry =>
        if host.catalogSaved then
          (.ok (ddlOk ("Table '" ++ stmt.tableName ++ "' created")), { db with registry })
        else
          (.ok (.failed ("Failed to persist schema catalog for table '" ++ stmt.tableName ++ "'")),
            db)

def keepPartitions (db : Database) (keep : Partition → Bool) : Database :=
  { db with
    partitions := db.partitions.filter keep
    keys_nodup := (List.filter_sublist.map _).nodup db.keys_nodup }

/-- `restore_table_schema` succeeds. -/
def restorable (reg : SchemaRegistry) (name : String) (schema : TableSchema) : Bool :=
  name ≠ "" && schema.tableId ≠ 0 &&
    reg.entries.all fun e => e.1 = name || e.2.tableId ≠ schema.tableId

/-- A change of the schema, rolled back if the catalog cannot be written. -/
def persistSchema (host : Host) (db : Database) (table : String) (schema : TableSchema)
    (registry : SchemaRegistry) (failure msg : String) : QueryResult × Database :=
  if host.catalogSaved then (ddlOk msg, { db with registry })
  else if restorable registry table schema then (.failed failure, db)
  else (.failed (failure ++ "; in-memory rollback failed"), { db with registry })

def execDropTable (host : Host) (db : Database) (stmt : DropTableStmt) :
    Except String QueryResult × Database :=
  match db.registry.lookup stmt.tableName with
  | none =>
    if stmt.ifExists then
      (.ok (ddlOk ("Table '" ++ stmt.tableName ++ "' does not exist (IF EXISTS)")), db)
    else (.ok (.failed ("Table '" ++ stmt.tableName ++ "' does not exist")), db)
  | some schema =>
    let r := persistSchema host db stmt.tableName schema (db.registry.erase stmt.tableName)
      ("Failed to persist schema catalog while dropping table '" ++ stmt.tableName ++ "'")
      ("Table '" ++ stmt.tableName ++ "' dropped")
    (.ok r.1,
      if host.catalogSaved ∧ schema.tableId ≠ 0 then
        keepPartitions r.2 fun p => p.key.tableId ≠ schema.tableId
      else r.2)

/-! ## Altering tables -/

/-- Set an attribute on a column; an unknown attribute changes nothing. -/
def setAttribute (attr col : String) (p : Partition) : Partition :=
  if attr = "SORTED" then p.setSorted col
  else if attr = "GROUPED" then p.setGrouped col
  else if attr = "PARTED" then p.setParted col
  else p

theorem setAttribute_frame (attr col : String) (p : Partition) :
    (setAttribute attr col p).key = p.key ∧ (setAttribute attr col p).columns = p.columns := by
  obtain ⟨g, hg, -⟩ := p.setGrouped_eq col
  obtain ⟨g', hg', -⟩ := p.setParted_eq col
  unfold setAttribute
  rw [hg, hg']
  split_ifs <;> exact ⟨rfl, rfl⟩

/-- The partitions of all tables that have the column get the attribute. -/
def setAttributes (db : Database) (attr col : String) : Database :=
  { db with
    partitions := db.partitions.map fun p =>
      if (p.getColumn col).isSome then setAttribute attr col p else p
    keys_nodup := by
      rw [List.map_map]
      have hkey : (Partition.key ∘ fun p : Partition =>
          if (p.getColumn col).isSome then setAttribute attr col p else p) = Partition.key := by
        funext p
        simp only [Function.comp]
        split
        · exact (setAttribute_frame attr col p).1
        · rfl
      rw [hkey]
      exact db.keys_nodup }

/-- Nanoseconds of a `SET TTL`. -/
def ttlNs (value : Int) (unit : String) : Int :=
  wrap64 (value * if unit = "HOURS" then nsPerHour else 24 * nsPerHour)

def storagePolicyText (warm cold drop : Int) : String :=
  (if warm > 0 then "WARM=" ++ toString (warm / nsPerHour) ++ "h " else "") ++
  (if cold > 0 then "COLD=" ++ toString (cold / nsPerHour) ++ "h " else "") ++
  (if drop > 0 then "DROP=" ++ toString (drop / (24 * nsPerHour)) ++ "d" else "")

def alterFailure (action table : String) : String :=
  "Failed to persist schema catalog after " ++ action ++ " on table '" ++ table ++ "'"

def execAlterTable (host : Host) (db : Database) (stmt : AlterTableStmt) :
    Except String QueryResult × Database :=
  match db.registry.lookup stmt.tableName with
  | none => (.ok (.failed ("Table '" ++ stmt.tableName ++ "' does not exist")), db)
  | some schema =>
    match stmt.action with
    | .addColumn col =>
      match col.toColumnDef with
      | .error e => (.error e, db)
      | .ok c =>
        let r := persistSchema host db stmt.tableName schema
          (modifySchema db.registry stmt.tableName fun s => { s with columns := s.columns ++ [c] })
          (alterFailure "ADD COLUMN" stmt.tableName)
          ("Column '" ++ col.column ++ "' added to '" ++ stmt.tableName ++ "'")
        (.ok r.1, r.2)
    | .dropColumn col =>
      if schema.columns.any fun c => c.name = col then
        let r := persistSchema host db stmt.tableName schema
          (modifySchema db.registry stmt.tableName fun s =>
            { s with columns := s.columns.eraseP fun c => c.name = col })
          (alterFailure "DROP COLUMN" stmt.tableName)
          ("Column '" ++ col ++ "' dropped from '" ++ stmt.tableName ++ "'")
        (.ok r.1, r.2)
      else (.ok (.failed ("Column '" ++ col ++ "' not found in '" ++ stmt.tableName ++ "'")), db)
    | .setAttribute col attr =>
      let applied := (db.partitions.filter fun p => (p.getColumn col).isSome).length
      (.ok (ddlOk ("Attribute " ++ attr ++ " set on column '" ++ col ++ "' (" ++
        toString applied ++ " partitions)")), setAttributes db attr col)
    | .setStoragePolicy warm cold drop =>
      if host.flushManager then
        (.ok (ddlOk ("Storage policy set for '" ++ stmt.tableName ++ "': " ++
          storagePolicyText warm cold drop)), db)
      else (.ok (ddlOk "Storage policy configured (FlushManager not active)"), db)
    | .setTtl value unit =>
      let ttl := ttlNs value unit
      let r := persistSchema host db stmt.tableName schema
        (modifySchema db.registry stmt.tableName fun s => { s with ttlNs := ttl })
        (alterFailure "SET TTL" stmt.tableName)
        ("TTL set to " ++ toString value ++ " " ++ unit ++ " for table '" ++ stmt.tableName ++ "'")
      -- Partitions of every table that are past the new limit go at once.
      (.ok r.1, if host.catalogSaved ∧ ttl > 0 then
          keepPartitions r.2 fun p => ¬p.key.hourEpoch < wrap64 (host.env.now - ttl)
        else r.2)

/-! ## Materialized views -/

/-- The aggregate of a view column, if views can keep it. -/
def mapAgg : AggFunc → Option MVAggType
  | .sum => some .sum
  | .count => some .count
  | .min => some .min
  | .max => some .max
  | .first => some .first
  | .last => some .last
  | _ => none

/-- The width of the time bars: that of the last `XBAR` key, 0 without one. -/
def xbarOf (keys : List GroupKey) : Int :=
  keys.foldl (fun bucket k => if k.xbarBucket > 0 then k.xbarBucket else bucket) 0

/-- The keys of a `GROUP BY` other than `XBAR`. -/
def plainKeys (keys : List GroupKey) : List String :=
  (keys.filter fun k => ¬k.xbarBucket > 0).map GroupKey.column

def viewDefinition {Q : Type} (query : SelectStmt Q) : MVDef where
  sourceTable := query.fromTable
  groupBy := plainKeys (query.groupBy.getD [])
  xbarBucket := xbarOf (query.groupBy.getD [])
  columns := query.columns.filterMap fun col =>
    (mapAgg col.agg).map fun agg =>
      { name := if col.asName.isEmpty then col.column else col.asName
        agg
        sourceCol := col.column }

def execCreateMV {Q : Type} (db : Database) (stmt : CreateMVStmt Q) : QueryResult × Database :=
  if (db.views.lookup stmt.viewName).isSome then
    (.failed ("Materialized view '" ++ stmt.viewName ++ "' already exists"), db)
  else if (viewDefinition stmt.query).columns.isEmpty then
    (.failed "Materialized view must have at least one aggregation column", db)
  else
    (ddlOk ("Materialized view '" ++ stmt.viewName ++ "' created"),
      { db with views := db.views.createView stmt.viewName (viewDefinition stmt.query) })

def execDropMV (db : Database) (stmt : DropMVStmt) : QueryResult × Database :=
  if (db.views.lookup stmt.viewName).isSome then
    (ddlOk ("Materialized view '" ++ stmt.viewName ++ "' dropped"),
      { db with views := db.views.erase stmt.viewName })
  else (.failed ("Materialized view '" ++ stmt.viewName ++ "' not found"), db)

/-- `SHOW TABLES`: the names in order, with their numbers of rows. -/
def showTables (db : Database) : QueryResult :=
  let names := (db.registry.entries.map fun e => e.1).mergeSort fun a b => a ≤ b
  { columnNames := ["name", "rows"]
    columnTypes := [.symbol, .int64]
    stringRows := names
    rows := names.map fun name =>
      [(((partitionsForTable db.partitions (db.registry.getTableId name)).map
        Partition.numRows).sum : Int)] }

/-- The name `DESCRIBE` gives a type. -/
def describedType : ColumnType → String
  | .int64 => "INT64"
  | .int32 => "INT32"
  | .float64 => "FLOAT64"
  | .float32 => "FLOAT32"
  | .timestampNs => "TIMESTAMP"
  | .symbol => "SYMBOL"
  | .bool => "BOOL"
  | .string => "UNKNOWN"

/-- `DESCRIBE`. -/
def describeTable (db : Database) (name : String) : QueryResult :=
  match db.registry.lookup name with
  | none => .failed ("Table not found: " ++ name)
  | some schema =>
    { columnNames := ["column", "type"]
      columnTypes := [.symbol, .symbol]
      stringRows := schema.columns.flatMap fun c => [c.name, describedType c.type]
      rows := schema.columns.map fun _ => [] }

end Zepto.Sql
