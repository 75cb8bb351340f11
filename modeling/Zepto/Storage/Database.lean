import Zepto.Storage.MaterializedView
import Zepto.Storage.Partition

/-!
# The database

What a query reads: the schema registry, the partitions of all tables, the materialized views and
the dictionary of symbol names. The keys of the partitions are distinct, as the
map they are kept in makes them.
-/

namespace Zepto.Storage

structure ColumnDef where
  name : String
  type : ColumnType
  deriving DecidableEq

structure TableSchema where
  columns : List ColumnDef
  tableId : TableId
  hasData : Bool := false
  ttlNs : Int := 0
  deriving DecidableEq

abbrev SchemaRegistry := AList (fun _ : String => TableSchema)

namespace SchemaRegistry

def tableCount (reg : SchemaRegistry) : Nat := reg.entries.length

/-- The id of a table, 0 if there is none of that name. -/
def getTableId (reg : SchemaRegistry) (name : String) : TableId :=
  match reg.lookup name with
  | some schema => schema.tableId
  | none => 0

end SchemaRegistry

/-- The names of symbols by code, and the code of each name. -/
structure StringDictionary where
  strings : List (Option String) := []
  index : AList (fun _ : String => SymbolId) := ∅

/-- `find`: the code of a name, -1 if there is none. -/
def StringDictionary.find (d : StringDictionary) (s : String) : Int :=
  match d.index.lookup s with
  | some code => code.toNat
  | none => -1

structure Database where
  registry : SchemaRegistry := ∅
  partitions : List Partition := []
  symbolDict : StringDictionary := {}
  views : Views := ∅
  keys_nodup : (partitions.map Partition.key).Nodup

/-- `find_partitions`: nothing for an unknown name once a table was created, all partitions for a
name without an id, else the table's own. -/
def Database.findPartitions (db : Database) (name : String) : List Partition :=
  if name ≠ "" ∧ 0 < db.registry.tableCount ∧ db.registry.lookup name = none then []
  else if db.registry.getTableId name = 0 then db.partitions
  else partitionsForTable db.partitions (db.registry.getTableId name)

def Database.inTable (db : Database) (name : String) (p : Partition) : Bool :=
  !(name ≠ "" ∧ 0 < db.registry.tableCount ∧ db.registry.lookup name = none) &&
    (db.registry.getTableId name = 0 || p.key.tableId = db.registry.getTableId name)

theorem Database.findPartitions_eq_filter (db : Database) (name : String) :
    db.findPartitions name = db.partitions.filter (db.inTable name) := by
  unfold findPartitions inTable
  split
  next h =>
    simp [h]
  rename_i h
  split_ifs with h0
  · simp [h, h0]
  refine List.filter_congr fun p _ => ?_
  simp only [decide_eq_false h, decide_eq_false h0, Bool.not_false, Bool.true_and, Bool.false_or]

theorem Database.partitions_nodup (db : Database) : db.partitions.Nodup := .of_map _ db.keys_nodup

theorem Database.findPartitions_sublist (db : Database) (name : String) :
    (db.findPartitions name).Sublist db.partitions := by
  unfold findPartitions
  split
  · exact List.nil_sublist _
  · split
    · exact .refl _
    · exact List.filter_sublist

end Zepto.Storage
