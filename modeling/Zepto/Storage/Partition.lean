import Mathlib.Data.List.AList
import Zepto.Lib.BinarySearch
import Zepto.Lib.Grouping
import Zepto.Storage.Column

/-!
# Partitions

A partition holds the rows of one table, symbol and hour: a list of columns over one byte
memory, with the `s#`, `g#` and `p#` attributes set on some of them. Its fields carry what the
arena guarantees: the columns fit their allocations, and the allocations are apart and inside the
part of the arena that is handed out.
-/

namespace Zepto.Storage

open Zepto.Lib List

section

variable {β : Type} {ps : List (Int × β)} {k : Int} {b : β}

structure PartitionKey where
  tableId : TableId
  symbolId : SymbolId
  hourEpoch : Int
  deriving DecidableEq

/-- A `g#` index: the rows of each value, increasing, as they were when it was built. -/
structure GroupedIndex where
  rows : AList (fun _ : Int => List Nat)
  sorted : ∀ v l, rows.lookup v = some l → l.Pairwise (· < ·)
  small : ∀ v l, rows.lookup v = some l → ∀ i ∈ l, i + 1 < 2 ^ 32

/-- A `p#` index: the first row and the row after the last of each value. -/
structure PartedIndex where
  ranges : AList (fun _ : Int => Nat × Nat)
  small : ∀ v r, ranges.lookup v = some r → r.1 ≤ r.2 ∧ r.2 < 2 ^ 32

def insertAll {β : Type} (ps : List (Int × β)) : AList (fun _ : Int => β) :=
  ps.foldl (fun t p => t.insert p.1 p.2) ∅

theorem mem_of_lookup_foldl {t : AList fun _ : Int => β}
    (h : (ps.foldl (fun t p => t.insert p.1 p.2) t).lookup k = some b) :
    (k, b) ∈ ps ∨ t.lookup k = some b := by
  induction ps generalizing t with
  | nil => exact .inr h
  | cons p ps ih =>
    rcases ih h with hmem | hlookup
    · exact .inl (mem_cons_of_mem _ hmem)
    obtain ⟨rfl, rfl⟩ | ⟨-, hold⟩ := lookup_insert_cases hlookup
    · exact .inl mem_cons_self
    · exact .inr hold

theorem mem_of_lookup_insertAll (h : (insertAll ps).lookup k = some b) : (k, b) ∈ ps := by
  rcases mem_of_lookup_foldl h with hmem | hnone
  · exact hmem
  · simp at hnone

structure Partition where
  key : PartitionKey
  columns : List ColumnVector
  mem : Mem
  sortedColumns : List String := []
  groupedIndexes : AList (fun _ : String => GroupedIndex) := ∅
  partedIndexes : AList (fun _ : String => PartedIndex) := ∅
  /-- The bytes of the arena that are handed out. -/
  arenaUsed : Nat
  arenaSize : Nat
  fits : ∀ c ∈ columns, c.Fits
  apart : columns.Pairwise ColumnVector.Apart
  handedOut : ∀ c ∈ columns, c.stop ≤ arenaUsed
  used_le : arenaUsed ≤ arenaSize
  arena_lt : arenaSize < 2 ^ 32

end

namespace Partition

/-- `get_column`: the first column of that name. -/
def getColumn (p : Partition) (name : String) : Option ColumnVector :=
  p.columns.find? (fun c => c.name = name)

/-- `num_rows`: the size of the first column. -/
def numRows (p : Partition) : Nat :=
  match p.columns with
  | [] => 0
  | c :: _ => c.size

def symbolValue (p : Partition) : Int := p.key.symbolId.toNat

/-! ## Attribute lookups -/

def isSorted (p : Partition) (col : String) : Bool := col ∈ p.sortedColumns

/-- The positions the binary searches for `lo` and `hi` end at. -/
def spanRange (p : Partition) (c : ColumnVector) (lo hi : Int) : Nat × Nat :=
  (lowerBoundIdx (c.rawI64 p.mem) c.size lo, upperBoundIdx (c.rawI64 p.mem) c.size hi)

def sortedRange (p : Partition) (col : String) (lo hi : Int) : Nat × Nat :=
  match p.getColumn col with
  | none => (0, 0)
  | some c => if c.size = 0 then (0, 0) else p.spanRange c lo hi

def isGrouped (p : Partition) (col : String) : Bool := (p.groupedIndexes.lookup col).isSome

def groupedLookup (p : Partition) (col : String) (v : Int) : List Nat :=
  match p.groupedIndexes.lookup col with
  | none => []
  | some index => (index.rows.lookup v).getD []

def isParted (p : Partition) (col : String) : Bool := (p.partedIndexes.lookup col).isSome

def partedRange (p : Partition) (col : String) (v : Int) : Nat × Nat :=
  match p.partedIndexes.lookup col with
  | none => (0, 0)
  | some index => (index.ranges.lookup v).getD (0, 0)

def timestampRange (p : Partition) (lo hi : Int) : Nat × Nat := p.sortedRange "timestamp" lo hi

/-- Whether the first and last timestamps leave room for `[lo, hi]`. -/
def overlapsTimeRange (p : Partition) (lo hi : Int) : Bool :=
  match p.getColumn "timestamp" with
  | none => false
  | some c =>
    if c.size = 0 then false
    else c.rawI64 p.mem 0 ≤ hi && c.rawI64 p.mem (c.size - 1) ≥ lo

section

variable (p : Partition) (col : String) (v : Int)

theorem groupedLookup_sorted : (p.groupedLookup col v).Pairwise (· < ·) := by
  unfold groupedLookup
  split
  · exact .nil
  rename_i index _
  cases h : index.rows.lookup v with
  | none => exact .nil
  | some l => exact index.sorted v l h

theorem groupedLookup_small {i : Nat} (hi : i ∈ p.groupedLookup col v) : i + 1 < 2 ^ 32 := by
  unfold groupedLookup at hi
  split at hi
  · cases hi
  rename_i index _
  cases h : index.rows.lookup v with
  | none => simp [h] at hi
  | some l => exact index.small v l h i (by simpa [h] using hi)

theorem partedRange_small :
    (p.partedRange col v).1 ≤ (p.partedRange col v).2 ∧ (p.partedRange col v).2 < 2 ^ 32 := by
  unfold partedRange
  split
  · simp
  rename_i index _
  cases h : index.ranges.lookup v with
  | none => simp
  | some r => exact index.small v r h

end

theorem getColumn_mem {p : Partition} {name : String} {c : ColumnVector}
    (h : p.getColumn name = some c) : c ∈ p.columns :=
  mem_of_find?_eq_some h

/-! ## Setting attributes -/

def setSorted (p : Partition) (col : String) : Partition :=
  { p with sortedColumns := col :: p.sortedColumns }

/-- The rows of a column whose word is `v`. -/
def rowsWith (m : Mem) (c : ColumnVector) (v : Int) : List Nat :=
  (range c.size).filter fun i => c.rawI64 m i = v

/-- The index `set_grouped` builds. -/
def buildGrouped (m : Mem) (c : ColumnVector) (hc : c.Fits) : GroupedIndex where
  rows := insertAll (((range c.size).map (c.rawI64 m)).map fun v => (v, rowsWith m c v))
  sorted := by
    intro v l hl
    obtain ⟨u, -, hu⟩ := mem_map.mp (mem_of_lookup_insertAll hl)
    cases hu
    exact pairwise_lt_range.filter _
  small := by
    intro v l hl i hi
    obtain ⟨u, -, hu⟩ := mem_map.mp (mem_of_lookup_insertAll hl)
    cases hu
    have := mem_range.mp (mem_of_mem_filter hi)
    have := hc.size_lt
    omega

/-- `set_grouped`; a column without rows gets no index. -/
def setGrouped (p : Partition) (col : String) : Partition :=
  match h : p.getColumn col with
  | none => p
  | some c =>
    if c.size = 0 then p
    else { p with
      groupedIndexes := p.groupedIndexes.insert col
        (buildGrouped p.mem c (p.fits c (mem_of_find?_eq_some h))) }

/-- The runs of equal words: value, first row, row after the last. -/
def runs (f : Nat → Int) (n : Nat) : List Nat → Int → Nat → List (Int × (Nat × Nat))
  | [], cur, start => [(cur, start, n)]
  | i :: is, cur, start =>
    if f i ≠ cur then (cur, start, i) :: runs f n is (f i) i else runs f n is cur start

theorem runs_bounds {f : Nat → Int} {n : Nat} {is : List Nat} {cur : Int} {start : Nat}
    (hsorted : is.Pairwise (· < ·)) (his : ∀ i ∈ is, start ≤ i ∧ i ≤ n) (hstart : start ≤ n)
    {r : Int × (Nat × Nat)} (hr : r ∈ runs f n is cur start) : r.2.1 ≤ r.2.2 ∧ r.2.2 ≤ n := by
  induction is generalizing cur start with
  | nil =>
    rw [runs, mem_singleton] at hr
    subst hr
    exact ⟨hstart, le_refl n⟩
  | cons i is ih =>
    rw [forall_mem_cons] at his
    rw [pairwise_cons] at hsorted
    rw [runs] at hr
    split at hr
    · rcases mem_cons.mp hr with rfl | hr
      · exact his.1
      · refine ih hsorted.2 (fun j hj => ⟨le_of_lt (hsorted.1 j hj), (his.2 j hj).2⟩) his.1.2 hr
    · exact ih hsorted.2 his.2 hstart hr

/-- The index `set_parted` builds; a later run of a value replaces an earlier. -/
def buildParted (m : Mem) (c : ColumnVector) (hc : c.Fits) : PartedIndex where
  ranges := insertAll (runs (c.rawI64 m) c.size (range' 1 (c.size - 1)) (c.rawI64 m 0) 0)
  small := by
    intro v r hr
    have hbounds := runs_bounds pairwise_lt_range'
      (fun i hi => ⟨Nat.zero_le i, by rw [mem_range'_1] at hi; omega⟩) (Nat.zero_le _)
      (mem_of_lookup_insertAll hr)
    have := hc.size_lt
    simp only at hbounds
    omega

/-- `set_parted`; a column without rows gets no index. -/
def setParted (p : Partition) (col : String) : Partition :=
  match h : p.getColumn col with
  | none => p
  | some c =>
    if c.size = 0 then p
    else { p with
      partedIndexes := p.partedIndexes.insert col
        (buildParted p.mem c (p.fits c (mem_of_find?_eq_some h))) }

section

variable (p : Partition) (col : String)

theorem setGrouped_eq : ∃ g, p.setGrouped col = { p with groupedIndexes := g } ∧
      ∀ name, name ≠ col → g.lookup name = p.groupedIndexes.lookup name := by
  unfold setGrouped
  split
  · exact ⟨_, rfl, fun _ _ => rfl⟩
  · split
    · exact ⟨_, rfl, fun _ _ => rfl⟩
    · exact ⟨_, rfl, fun _ hname => AList.lookup_insert_ne hname⟩

theorem setParted_eq : ∃ g, p.setParted col = { p with partedIndexes := g } ∧
      ∀ name, name ≠ col → g.lookup name = p.partedIndexes.lookup name := by
  unfold setParted
  split
  · exact ⟨_, rfl, fun _ _ => rfl⟩
  · split
    · exact ⟨_, rfl, fun _ _ => rfl⟩
    · exact ⟨_, rfl, fun _ hname => AList.lookup_insert_ne hname⟩

theorem sortedRange_small (lo hi : Int) :
    (p.sortedRange col lo hi).1 < 2 ^ 32 ∧ (p.sortedRange col lo hi).2 < 2 ^ 32 := by
  unfold sortedRange
  split
  · simp
  rename_i c hc
  have hsize := (p.fits c (getColumn_mem hc)).size_lt
  split
  · simp
  · exact ⟨lt_of_le_of_lt (partitionPoint_le _ _) hsize,
      lt_of_le_of_lt (partitionPoint_le _ _) hsize⟩

end

end Partition

/-! ## Partition sets

`PartitionManager` keeps its partitions in an unordered map; `partitions` lists them in the
order an iteration meets them. -/

/-- `get_partitions_for_table`. -/
def partitionsForTable (parts : List Partition) (table : TableId) : List Partition :=
  parts.filter fun p => p.key.tableId = table

/-- `get_partitions_for_symbol`. -/
def partitionsForSymbol (parts : List Partition) (table : TableId) (symbol : SymbolId) :
    List Partition :=
  parts.filter fun p => p.key.tableId = table && p.key.symbolId = symbol

/-- The hour window of a partition meets `[lo, hi]`. -/
def hourOverlaps (p : Partition) (lo hi : Int) : Bool :=
  p.key.hourEpoch ≤ hi && wrap64 (p.key.hourEpoch + nsPerHour) > lo

/-- `get_partitions_for_time_range`, of one table or, without one, of all. -/
def partitionsForTimeRange (parts : List Partition) (table : Option TableId) (lo hi : Int) :
    List Partition :=
  parts.filter fun p =>
    (match table with | some t => decide (p.key.tableId = t) | none => true) &&
      hourOverlaps p lo hi

end Zepto.Storage
