import Zepto.Sql.Ddl
import Zepto.Storage.Ingest

/-!
# INSERT and tick batches

`INSERT` into a table of the registry turns each row into typed values of its columns; without a
table of that name it makes ticks. A row that does not fit ends the statement and leaves the rows
before it stored. `ingestTickBatch` is the other way in, past SQL. The server is a single node.
-/

namespace Zepto.Sql

open Zepto.Lib Zepto.Storage

/-! ## Values -/

def columnTypeName : ColumnType → String
  | .int32 => "INT32"
  | .int64 => "INT64"
  | .float32 => "FLOAT32"
  | .float64 => "FLOAT64"
  | .timestampNs => "TIMESTAMP_NS"
  | .symbol => "SYMBOL"
  | .bool => "BOOL"
  | .string => "STRING"

/-- `insert_value_as_i64`. -/
def InsertValue.asI64 : InsertValue → Option Int
  | .int i => some i
  | .float f => some (intOfDouble f)
  | .string _ => none

/-- `insert_value_as_f64`. -/
def InsertValue.asF64 : InsertValue → Option Float
  | .int i => some (doubleOfInt i)
  | .float f => some f
  | .string _ => none

def parseBoolString (s : String) : Option (BitVec 8) :=
  if s.toLower ∈ ["true", "t", "1"] then some 1
  else if s.toLower ∈ ["false", "f", "0"] then some 0
  else none

/-- `materialize_insert_value`: the value or the error, and the dictionary. -/
def materializeInsertValue (column : ColumnDef) (value : InsertValue) (dict : StringDictionary) :
    Except String TypedColumnValue × StringDictionary :=
  let out : TypedColumnValue := { name := column.name, type := column.type }
  let quoted := " column '" ++ column.name ++ "'"
  let interned (s : String) :=
    ({ out with u32 := (dict.intern s).1, stringValue := some s }, (dict.intern s).2)
  let stringError := "STRING value cannot be inserted into " ++ columnTypeName column.type ++ quoted
  match column.type with
  | .int32 =>
    match value.asI64 with
    | none => (.error stringError, dict)
    | some i =>
      if i < -2 ^ 31 ∨ 2 ^ 31 ≤ i then (.error ("INT32 value out of range for" ++ quoted), dict)
      else (.ok { out with i64 := i }, dict)
  | .int64 | .timestampNs =>
    match value.asI64 with
    | none => (.error stringError, dict)
    | some i => (.ok { out with i64 := i }, dict)
  | .float32 | .float64 =>
    match value.asF64 with
    | none => (.error stringError, dict)
    | some f => (.ok { out with f64 := f }, dict)
  | .symbol =>
    match value with
    | .string s => (.ok (interned s).1, (interned s).2)
    | value =>
      let i := value.asI64.getD 0
      if i < 0 ∨ 2 ^ 32 ≤ i then (.error ("SYMBOL id out of range for" ++ quoted), dict)
      else (.ok { out with u32 := .ofInt 32 i }, dict)
  | .string =>
    match value with
    | .string s => (.ok (interned s).1, (interned s).2)
    | _ => (.error ("Non-string value cannot be inserted into STRING" ++ quoted), dict)
  | .bool =>
    match value with
    | .string s =>
      match parseBoolString s with
      | none => (.error ("Invalid BOOL string for" ++ quoted), dict)
      | some b => (.ok { out with u8 := b }, dict)
    | value => (.ok { out with u8 := if value.asI64.getD 0 = 0 then 0 else 1 }, dict)

def typedValueAsI64 (v : TypedColumnValue) : Int :=
  match v.type with
  | .int32 | .int64 | .timestampNs => v.i64
  | .float32 | .float64 => intOfDouble v.f64
  | .symbol | .string => v.u32.toNat
  | .bool => v.u8.toNat

def insertCountResult (inserted : Nat) : QueryResult :=
  { columnNames := ["inserted"], columnTypes := [.int64], rows := [[(inserted : Int)]] }

def insertResult (inserted failed total : Nat) : QueryResult :=
  if failed > 0 then
    .failed ("Failed to ingest " ++ toString failed ++ " of " ++ toString total ++ " rows")
  else insertCountResult inserted

def columnCountError (expected got : Nat) : QueryResult :=
  .failed ("Column count mismatch: expected " ++ toString expected ++ ", got " ++ toString got)

/-! ## Rows of a table -/

/-- The columns an `INSERT` names, in its order. -/
def orderedColumns (schema : TableSchema) (table : String) :
    List String → List String → Except String (List ColumnDef)
  | _, [] => .ok []
  | seen, col :: cols =>
    if col.toLower ∈ seen then .error ("Duplicate INSERT column '" ++ col ++ "'")
    else match schema.columns.find? fun c => c.name.toLower = col.toLower with
      | none => .error ("Column '" ++ col ++ "' does not exist in table '" ++ table ++ "'")
      | some c => do pure (c :: (← orderedColumns schema table (col.toLower :: seen) cols))

structure RowBuild where
  symbolId : SymbolId := 0
  namedTimestamp : Option Int := none
  typedTimestamp : Option Int := none
  values : List TypedColumnValue := []

/-- Take in one value: symbol and time come from the columns of these names, the time otherwise from
the first timestamp column. -/
def RowBuild.add (b : RowBuild) (column : ColumnDef) (v : TypedColumnValue) :
    Except String RowBuild :=
  let i := typedValueAsI64 v
  let lower := column.name.toLower
  if lower = "symbol" ∧ (i < 0 ∨ 2 ^ 32 ≤ i) then
    .error ("Symbol value out of range for column '" ++ column.name ++ "'")
  else
    let named := lower = "timestamp" ∨ lower = "timestamp_ns"
    .ok
      { symbolId := if lower = "symbol" then .ofInt 32 i else b.symbolId
        namedTimestamp := if named then some i else b.namedTimestamp
        typedTimestamp :=
          if ¬named ∧ b.typedTimestamp = none ∧ column.type = .timestampNs then some i
          else b.typedTimestamp
        values := b.values ++ [v] }

/-- The message of a row, with the dictionary it leaves. -/
def buildRow : List (ColumnDef × InsertValue) → RowBuild → StringDictionary →
    Except String RowBuild × StringDictionary
  | [], b, dict => (.ok b, dict)
  | (column, value) :: rest, b, dict =>
    match materializeInsertValue column value dict with
    | (.error e, dict) => (.error e, dict)
    | (.ok v, dict) =>
      match b.add column v with
      | .error e => (.error e, dict)
      | .ok b => buildRow rest b dict

/-- Insert the rows in turn; the counts of those that went in and of those that did not. -/
def insertRows (host : Host) (tableId : TableId) (columns : List ColumnDef) (total : Nat) :
    List (List InsertValue) → Nat → Nat → Database → QueryResult × Database
  | [], inserted, failed, db =>
    (insertResult inserted failed total,
      if inserted > 0 then
        match db.registry.getById tableId with
        | some (name, _) => { db with registry := markHasData db.registry name }
        | none => db
      else db)
  | row :: rows, inserted, failed, db =>
    if row.length ≠ columns.length then (columnCountError columns.length row.length, db)
    else match buildRow (columns.zip row) {} db.symbolDict with
      | (.error e, dict) => (.failed e, { db with symbolDict := dict })
      | (.ok b, dict) =>
        let r := ingestTypedRow host.arenaSize { db with symbolDict := dict }
          { tableId, symbolId := b.symbolId
            timestamp := b.namedTimestamp.getD (b.typedTimestamp.getD host.env.now)
            columns := b.values }
        if r.1 then insertRows host tableId columns total rows (inserted + 1) failed r.2
        else insertRows host tableId columns total rows inserted (failed + 1) r.2

/-! ## Rows as ticks -/

/-- The value a row gives a name, by the last column of that name. -/
def namedValue (cols : List String) (row : List InsertValue) (name : String) :
    Option InsertValue :=
  ((cols.zip row).reverse.find? fun e => e.1.toLower = name).map Prod.snd

/-- The number a row gives a name; a string is interned. -/
def namedInt (cols : List String) (row : List InsertValue) (name : String) (default : Int)
    (dict : StringDictionary) : Int × StringDictionary :=
  match namedValue cols row name with
  | none => (default, dict)
  | some (.string s) => ((dict.intern s).1.toNat, (dict.intern s).2)
  | some (.float f) => (intOfDouble f, dict)
  | some (.int i) => (i, dict)

def rowTick (host : Host) (tableId : TableId) (cols : List String) (row : List InsertValue)
    (dict : StringDictionary) : TickMessage × StringDictionary :=
  let symbol := namedInt cols row "symbol" 0 dict
  let price :=
    match namedValue cols row "price" with
    | some (.float f) => ((bitsOfDouble f, true), symbol.2)
    | _ =>
      let r := namedInt cols row "price" 0 symbol.2
      ((r.1, false), r.2)
  let volume := namedInt cols row "volume" 0 price.2
  let ts := namedInt cols row "timestamp" host.env.now volume.2
  ({ recvTs := ts.1, symbolId := toSymbolId symbol.1, price := price.1.1, volume := volume.1
     priceIsFloat := price.1.2, tableId }, ts.2)

/-- The ticks up to the first row of a wrong length, which the error is about. -/
def rowTicks (host : Host) (tableId : TableId) (cols : List String) :
    List (List InsertValue) → StringDictionary →
    List TickMessage × Option QueryResult × StringDictionary
  | [], dict => ([], none, dict)
  | row :: rows, dict =>
    if row.length ≠ cols.length then ([], some (columnCountError cols.length row.length), dict)
    else
      let tick := rowTick host tableId cols row dict
      let rest := rowTicks host tableId cols rows tick.2
      (tick.1 :: rest.1, rest.2)

def execInsert (host : Host) (db : Database) (stmt : InsertStmt) : QueryResult × Database :=
  match db.registry.lookup stmt.tableName with
  | some schema =>
    let cols :=
      if stmt.columns.isEmpty then schema.columns.map ColumnDef.name else stmt.columns
    match orderedColumns schema stmt.tableName [] cols with
    | .error e => (.failed e, db)
    | .ok columns =>
      insertRows host schema.tableId columns stmt.valueRows.length stmt.valueRows 0 0 db
  | none =>
    let cols :=
      if stmt.columns.isEmpty then ["symbol", "price", "volume", "timestamp"] else stmt.columns
    let r := rowTicks host (db.registry.getTableId stmt.tableName) cols stmt.valueRows db.symbolDict
    let stored := storeTicks host.arenaSize host.queue host.env.now
      { db with symbolDict := r.2.2 } r.1
    match r.2.1 with
    | some e => (e, stored)
    -- A row that finds the queue full is stored and yet counted as failed.
    | none =>
      let failed := (pushTicks host.env.now host.queue.1 r.1).1.length
      (insertResult (r.1.length - failed) failed r.1.length, stored)

structure TickBatchIngestResult where
  inserted : Nat := 0
  error : String := ""
  deriving DecidableEq

def ingestTickBatch (host : Host) (db : Database) (table : String) (ticks : List TickMessage) :
    TickBatchIngestResult × Database :=
  if table ≠ "" ∧ db.registry.lookup table = none then
    ({ error := "Table '" ++ table ++ "' does not exist" }, db)
  else if table ≠ "" ∧ db.registry.getTableId table = 0 then
    ({ error := "Table '" ++ table ++ "' has no table_id" }, db)
  else
    let tableId := if table = "" then 0 else db.registry.getTableId table
    let stored := storeTicks host.arenaSize host.queue host.env.now db
      (ticks.map fun msg => { msg with tableId })
    ({ inserted := ticks.length },
      if ticks.isEmpty ∨ table = "" then stored
      else { stored with registry := markHasData stored.registry table })

end Zepto.Sql
