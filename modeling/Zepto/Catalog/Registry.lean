import Zepto.Storage.Column
import Mathlib.Data.List.AList

/-!
# The schema registry

The table schemas of a process as `SchemaRegistry` keeps them, placements and the id counter
included, and the calls that change them. A call that returns false is `none`. Names are the bytes
the tokenizer took, one per `Char`: a back-quoted identifier may be any text without a back quote.
-/

namespace Zepto.Catalog

open Zepto.Storage (ColumnType)

structure ColumnDef where
  name : List Char
  type : ColumnType
  deriving DecidableEq

inductive TablePlacementMode where
  | hashByTableAndSymbol
  | hashByTable
  | pinnedNode
  deriving DecidableEq

structure TablePlacementOptions where
  configured : Bool := false
  mode : TablePlacementMode := .hashByTableAndSymbol
  nodeId : BitVec 32 := 0
  deriving DecidableEq

structure TableSchema where
  tableName : List Char
  columns : List ColumnDef := []
  ttlNs : BitVec 64 := 0
  hasData : Bool := false
  tableId : TableId := 0
  placement : TablePlacementOptions := {}
  deriving DecidableEq

abbrev Tables := AList (fun _ : List Char => TableSchema)

structure Registry where
  tables : Tables := ∅
  nextTableId : TableId := 1

/-- `stable_table_id`: the FNV-1a hash of the name, brought into 1 to 65535. -/
def stableTableId (name : List Char) : TableId :=
  let h := name.foldl
    (fun (h : BitVec 32) c => (h ^^^ .ofNat 32 (c.toNat % 256)) * 16777619) 2166136261
  .ofNat 16 (h.toNat % 65535 + 1)

def Tables.uses (tables : Tables) (tableId : TableId) : Bool :=
  tables.entries.any fun e => e.2.tableId = tableId

/-- The ids from `candidate` on, one a round; 0 if the rounds run out. -/
def probe (used : TableId → Bool) : Nat → TableId → TableId
  | 0, _ => 0
  | rounds + 1, candidate =>
    if used candidate then probe used rounds (if candidate = 65535 then 1 else candidate + 1)
    else candidate

/-- `allocate_table_id_locked_`. -/
def allocateTableId (tables : Tables) (name : List Char) : TableId :=
  probe tables.uses 65535 (stableTableId name)

namespace Registry

def counterAfter (reg : Registry) (tableId : TableId) : TableId :=
  if reg.nextTableId ≤ tableId ∧ tableId < 65535 then tableId + 1 else reg.nextTableId

def create (reg : Registry) (name : List Char) (cols : List ColumnDef)
    (placement : TablePlacementOptions) : Option Registry :=
  if (reg.tables.lookup name).isSome then none
  else
    let tableId := allocateTableId reg.tables name
    if tableId = 0 then none
    else some
      { tables := reg.tables.insert name { tableName := name, columns := cols, tableId, placement }
        nextTableId := reg.counterAfter tableId }

def drop (reg : Registry) (name : List Char) : Option Registry :=
  if (reg.tables.lookup name).isSome then some { reg with tables := reg.tables.erase name }
  else none

def restoreTableSchema (reg : Registry) (schema : TableSchema) : Option Registry :=
  if schema.tableName = [] ∨ schema.tableId = 0 then none
  else if reg.tables.entries.any fun e =>
      e.1 ≠ schema.tableName ∧ e.2.tableId = schema.tableId then none
  else some
    { tables := reg.tables.insert schema.tableName schema
      nextTableId := reg.counterAfter schema.tableId }

/-- The schema of a table as a call leaves it; false without such a table. -/
def change (reg : Registry) (name : List Char) (f : TableSchema → Option TableSchema) :
    Option Registry :=
  match reg.tables.lookup name with
  | none => none
  | some schema =>
    match f schema with
    | none => none
    | some schema => some { reg with tables := reg.tables.insert name schema }

def addColumn (reg : Registry) (name : List Char) (col : ColumnDef) : Option Registry :=
  reg.change name fun s => some { s with columns := s.columns ++ [col] }

def dropColumn (reg : Registry) (name colName : List Char) : Option Registry :=
  reg.change name fun s =>
    if s.columns.any fun c => c.name = colName then
      some { s with columns := s.columns.eraseP fun c => c.name = colName }
    else none

def setTtl (reg : Registry) (name : List Char) (ttlNs : BitVec 64) : Option Registry :=
  reg.change name fun s => some { s with ttlNs }

def setPlacement (reg : Registry) (name : List Char) (placement : TablePlacementOptions) :
    Option Registry :=
  reg.change name fun s => some { s with placement }

def markHasData (reg : Registry) (name : List Char) : Option Registry :=
  reg.change name fun s => some { s with hasData := true }

end Registry

end Zepto.Catalog
