import Mathlib.Data.List.Sort
import Zepto.Sql.Where

/-!
# Result sets

`QueryResult` holds the rows of an answer as `int64` words, and next to them the typed rows of
those that have a float column. `applyOffsetLimit`, `applyOrderBy` and `applySample` are the
steps shared by the executors. `std::sort` leaves the order of rows with equal keys open; here it
is that of a stable sort.
-/

namespace Zepto.Sql

open Zepto.Lib Zepto.Storage

variable {Q : Type}

inductive TypedValue where
  | int (i : Int)
  | float (f : Float)
  deriving DecidableEq

/-- The two readings of a typed cell, which is a union. -/
def TypedValue.asInt : TypedValue → Int
  | .int i => i
  | .float f => bitsOfDouble f

def TypedValue.asFloat : TypedValue → Float
  | .int i => doubleOfBits (unsigned 64 i)
  | .float f => f

structure QueryResult where
  columnNames : List String := []
  columnTypes : List ColumnType := []
  rows : List (List Int) := []
  typedRows : List (List TypedValue) := []
  stringRows : List String := []
  rowsScanned : Nat := 0
  error : String := ""
  deriving DecidableEq

namespace QueryResult

def ok (r : QueryResult) : Bool := r.error.isEmpty

def failed (msg : String) : QueryResult := { error := msg }

end QueryResult

/-- `static_cast<size_t>` of an `int64`. -/
def toSize (z : Int) : Nat := unsigned 64 z

/-! ## Offset, limit and order -/

def applyOffsetLimit (r : QueryResult) (offset limit : Option Int) : QueryResult :=
  if offset.isNone ∧ limit.isNone then r
  else
    let off := toSize (offset.getD 0)
    let r := if off > 0 ∧ off < r.rows.length then
        { r with
          rows := r.rows.drop off
          typedRows := if r.typedRows.length > off then r.typedRows.drop off else r.typedRows }
      else if off ≥ r.rows.length then { r with rows := [], typedRows := [] }
      else r
    match limit with
    | none => r
    | some l =>
      if r.rows.length > toSize l then
        { r with
          rows := r.rows.take (toSize l)
          typedRows := if r.typedRows.length > toSize l then r.typedRows.take (toSize l)
            else r.typedRows }
      else r

/-- The positions of the sort columns among the names, with their direction; others are skipped. -/
def sortKeys (names : List String) (items : List OrderByItem) : List (Nat × Bool) :=
  items.filterMap fun item =>
    let i := names.findIdx fun n => n = item.column
    if i < names.length then some (i, item.asc) else none

/-- Rows compared by the sort columns; a row that is too short reads 0. -/
def rowLess : List (Nat × Bool) → List Int → List Int → Bool
  | [], _, _ => false
  | (ci, asc) :: keys, a, b =>
    let va := a.getD ci 0
    let vb := b.getD ci 0
    if va ≠ vb then (if asc then va < vb else va > vb) else rowLess keys a b

/-- `apply_order_by`: sort, keep `offset + limit` rows, drop the offset. Typed rows stay. -/
def applyOrderBy (r : QueryResult) (orderBy : Option (List OrderByItem))
    (offset limit : Option Int) : QueryResult :=
  match orderBy with
  | none => r
  | some items =>
    let keys := sortKeys r.columnNames items
    if r.rows.isEmpty ∨ keys.isEmpty then r
    else
      let off := toSize (offset.getD 0)
      let lim := (limit.map toSize).getD r.rows.length
      let need := min ((off + lim) % 2 ^ 64) r.rows.length
      let rows := (r.rows.mergeSort fun a b => !rowLess keys b a).take need
      let rows := match offset with
        | some o =>
          if o > 0 then
            let rows := rows.drop (toSize o)
            match limit with
            | some l => rows.take (toSize l)
            | none => rows
          else rows
        | none => rows
      { r with rows }

/-- The hash of a row number that decides whether it is sampled. -/
def sampleHash (i : Nat) : Nat :=
  let h := BitVec.ofNat 64 i
  let h := (h ^^^ (h >>> 30)) * 0xbf58476d1ce4e5b9#64
  let h := (h ^^^ (h >>> 27)) * 0x94d049bb133111eb#64
  (h ^^^ (h >>> 31)).toNat % 2 ^ 32

/-- `apply_sample`: keep the rows whose hash is below the rate. -/
def applySample (rate : Option Float) (rows : List Nat) : List Nat :=
  match rate with
  | none => rows
  | some rate =>
    if rate ≥ doubleOfInt 1 then rows
    else
      let threshold := unsigned 32 (intOfDouble (rate * doubleOfInt 4294967296))
      rows.filter fun i => sampleHash i < threshold

end Zepto.Sql
