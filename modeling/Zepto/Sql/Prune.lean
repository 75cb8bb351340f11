import Zepto.Sql.Where
import Zepto.Storage.Database

/-!
# Choosing partitions

Before a scan the executor looks for a symbol and a time window in the `WHERE` tree:
`hasWhereSymbol` finds the first `symbol = x`, `hasWhereSymbolIn` the first `symbol IN (...)`,
both anywhere in the tree; `extractTimeRange` finds the first `BETWEEN` on the time column along
the conjunctions. `prunedPartitions` is the list of partitions handed to the scan.
-/

namespace Zepto.Sql

open List Zepto.Lib Zepto.Storage

variable {Q : Type}

/-- `find_sym`: the value of the first `symbol = x`; -2 for a name without a code. -/
def findSymbol (dict : StringDictionary) : Expr Q → Option Int
  | .compare c =>
    if c.column = "symbol" ∧ c.op = .eq then
      if c.isString then
        if dict.find c.valueStr < 0 then some (-2) else some (dict.find c.valueStr)
      else some c.value
    else none
  | .and l r | .or l r => (findSymbol dict l).or (findSymbol dict r)
  | .not l => findSymbol dict l
  | _ => none

def hasWhereSymbol (dict : StringDictionary) (w : Option (Expr Q)) : Option Int :=
  w.bind (findSymbol dict)

/-- `find_in`: the values of the first `symbol IN (...)` of the tree. -/
def findSymbolIn : Expr Q → Option (List Int)
  | .inList _ col vals neg => if col = "symbol" ∧ neg = false then some vals else none
  | .and l r | .or l r => (findSymbolIn l).or (findSymbolIn r)
  | .not l => findSymbolIn l
  | _ => none

def hasWhereSymbolIn (w : Option (Expr Q)) : Option (List Int) := w.bind findSymbolIn

/-- `find_ts`: the bounds of the first time `BETWEEN` in the conjunction. -/
def findTimeRange : Expr Q → Option (Int × Int)
  | .between _ col _ lo hi => if col = "timestamp" ∨ col = "recv_ts" then some (lo, hi) else none
  | .and l r => (findTimeRange l).or (findTimeRange r)
  | _ => none

def extractTimeRange (w : Option (Expr Q)) : Option (Int × Int) := w.bind findTimeRange

/-- The partitions of a symbol: of the table, or of all when it has no id. -/
def symbolPartitions (db : Database) (tid : TableId) (symbol : SymbolId) : List Partition :=
  if tid ≠ 0 then partitionsForSymbol db.partitions tid symbol
  else db.partitions.filter fun p => p.key.symbolId = symbol

/-- The partitions whose timestamps meet the window, if there is one. -/
def narrowByTime (range : Option (Int × Int)) (parts : List Partition) : List Partition :=
  match range with
  | some (lo, hi) => parts.filter fun p => p.overlapsTimeRange lo hi
  | none => parts

/-- The partitions `exec_select` scans for a statement without a join. -/
def prunedPartitions (db : Database) (table : String) (w : Option (Expr Q)) : List Partition :=
  let range := extractTimeRange w
  let tid := db.registry.getTableId table
  match hasWhereSymbol db.symbolDict w with
  | some sym => narrowByTime range (symbolPartitions db tid (toSymbolId sym))
  | none =>
    match hasWhereSymbolIn w with
    | some (v :: vs) =>
      (v :: vs).flatMap fun s => narrowByTime range (symbolPartitions db tid (toSymbolId s))
    | _ =>
      match range with
      | some (lo, hi) =>
        partitionsForTimeRange db.partitions (if tid = 0 then none else some tid) lo hi
      | none => db.findPartitions table

/-! ## How often a partition is scanned -/

/-- The partition is of the table with this id; 0 is all tables. -/
def inScope (tid : TableId) (p : Partition) : Bool := tid = 0 || p.key.tableId = tid

/-- The partition's timestamps meet the window, if there is one. -/
def inWindow (range : Option (Int × Int)) (p : Partition) : Bool :=
  match range with
  | some (lo, hi) => p.overlapsTimeRange lo hi
  | none => true

/-- How often `symbol IN` names the partition's symbol, as 32-bit ids. -/
def listedTimes (vals : List Int) (p : Partition) : Nat :=
  vals.countP fun v => toSymbolId v = p.key.symbolId

/-- How often `exec_select` scans a partition. -/
def scanCount (db : Database) (table : String) (w : Option (Expr Q)) (p : Partition) : Nat :=
  let range := extractTimeRange w
  let tid := db.registry.getTableId table
  match hasWhereSymbol db.symbolDict w with
  | some sym =>
    if inScope tid p && p.key.symbolId = toSymbolId sym && inWindow range p then 1 else 0
  | none =>
    match hasWhereSymbolIn w with
    | some (v :: vs) => if inScope tid p && inWindow range p then listedTimes (v :: vs) p else 0
    | _ =>
      match range with
      | some (lo, hi) => if inScope tid p && hourOverlaps p lo hi then 1 else 0
      | none => if db.inTable table p then 1 else 0

section

variable {db : Database} {table : String} {w : Option (Expr Q)} {p : Partition}

theorem symbolPartitions_eq_filter (tid : TableId) (symbol : SymbolId) :
    symbolPartitions db tid symbol =
      db.partitions.filter fun p => inScope tid p && p.key.symbolId = symbol := by
  unfold symbolPartitions partitionsForSymbol inScope
  by_cases h : tid = 0
  · simp [h]
  · rw [if_pos h]
    refine filter_congr fun p _ => ?_
    rw [decide_eq_false h, Bool.false_or]

theorem narrowByTime_eq_filter (range : Option (Int × Int)) (parts : List Partition) :
    narrowByTime range parts = parts.filter (inWindow range) := by
  unfold narrowByTime inWindow
  cases range with
  | none => simp
  | some r => rfl

theorem narrowed_symbolPartitions (range : Option (Int × Int)) (tid : TableId) (symbol : SymbolId) :
    narrowByTime range (symbolPartitions db tid symbol) = db.partitions.filter fun p =>
        inScope tid p && p.key.symbolId = symbol && inWindow range p := by
  rw [narrowByTime_eq_filter, symbolPartitions_eq_filter, filter_filter]
  refine filter_congr fun p _ => ?_
  rw [Bool.and_comm]

theorem timeRange_eq_filter (tid : TableId) (lo hi : Int) :
    partitionsForTimeRange db.partitions (if tid = 0 then none else some tid) lo hi =
      db.partitions.filter fun p => inScope tid p && hourOverlaps p lo hi := by
  unfold partitionsForTimeRange inScope
  refine filter_congr fun p _ => ?_
  by_cases h : tid = 0
  · simp [h]
  · rw [if_neg h, decide_eq_false h, Bool.false_or]

open Classical in
theorem count_filter_partitions (hp : p ∈ db.partitions) (f : Partition → Bool) :
    (db.partitions.filter f).count p = if f p then 1 else 0 := by
  split_ifs with h
  · exact count_eq_one_of_mem (db.partitions_nodup.filter f) (by simp [hp, h])
  · exact count_eq_zero_of_not_mem (by simp [h])

open Classical in
theorem count_listed (hp : p ∈ db.partitions) (range : Option (Int × Int)) (tid : TableId)
    (vals : List Int) :
    (vals.flatMap fun s => narrowByTime range (symbolPartitions db tid (toSymbolId s))).count p =
      if inScope tid p && inWindow range p then listedTimes vals p else 0 := by
  induction vals with
  | nil => simp [listedTimes]
  | cons v vs ih =>
    rw [flatMap_cons, count_append, ih, narrowed_symbolPartitions, count_filter_partitions hp]
    unfold listedTimes
    by_cases hs : p.key.symbolId = toSymbolId v
    · cases inScope tid p <;> cases inWindow range p <;> simp [hs, add_comm]
    · have hs' : ¬toSymbolId v = p.key.symbolId := fun h => hs h.symm
      cases inScope tid p <;> cases inWindow range p <;> simp [hs, hs']

open Classical in
/-- `scanCount` is the number of times the partition is in the list handed to the scan. -/
theorem count_prunedPartitions (hp : p ∈ db.partitions) :
    (prunedPartitions db table w).count p = scanCount db table w p := by
  unfold prunedPartitions scanCount
  cases hasWhereSymbol db.symbolDict w with
  | some sym => simp [narrowed_symbolPartitions, count_filter_partitions hp]
  | none =>
    simp only
    split
    · exact count_listed hp _ _ _
    · split
      · rw [timeRange_eq_filter, count_filter_partitions hp]
      · rw [Database.findPartitions_eq_filter, count_filter_partitions hp]

theorem mem_of_mem_pruned (hp : p ∈ prunedPartitions db table w) : p ∈ db.partitions := by
  unfold prunedPartitions at hp
  simp only [narrowed_symbolPartitions, Database.findPartitions_eq_filter] at hp
  split at hp
  · exact mem_of_mem_filter hp
  split at hp
  · obtain ⟨v, -, hv⟩ := mem_flatMap.mp hp
    exact mem_of_mem_filter hv
  · split at hp <;> exact mem_of_mem_filter hp

end

end Zepto.Sql
