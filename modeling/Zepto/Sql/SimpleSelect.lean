import Zepto.Lib.Loops
import Zepto.Sql.Index
import Zepto.Sql.Result

/-!
# Plain selects

`execSimpleSelect` runs over the partitions it is given: it selects rows, samples them, projects
the select list and stops at the limit. Names and types of the result come from the first
partition.
-/

namespace Zepto.Sql

open List Zepto.Lib Zepto.Storage

variable {Q : Type}

def SelectStmt.isStar (stmt : SelectStmt Q) : Bool :=
  match stmt.columns with
  | [sel] => sel.isStar
  | _ => false

/-- The items that are not window functions, which come later. -/
def SelectStmt.plainColumns (stmt : SelectStmt Q) : List (SelectExpr Q) :=
  stmt.columns.filter fun sel => sel.windowFunc = .none

def SelectExpr.outName (sel : SelectExpr Q) : String :=
  if sel.asName.isEmpty then sel.column else sel.asName

def selectHeader (stmt : SelectStmt Q) : List Partition → QueryResult
  | [] => {}
  | part :: _ =>
    if stmt.isStar then
      { columnNames := part.columns.map ColumnVector.name
        columnTypes := part.columns.map ColumnVector.type }
    else
      { columnNames := stmt.plainColumns.map SelectExpr.outName
        columnTypes := stmt.plainColumns.map fun sel =>
          match part.getColumn sel.column with
          | some c => c.type
          | none => .int64 }

/-- A stored cell: the `int64` word and the typed value, a float as the bits of the double. -/
def readCell (part : Partition) (c : ColumnVector) (idx : Nat) : Int × TypedValue :=
  if c.type.isFloat then
    (bitsOfDouble (c.readF64 part.mem idx), .float (c.readF64 part.mem idx))
  else (c.readI64 part.mem idx, .int (c.readI64 part.mem idx))

def selectCell (env : Env) (part : Partition) (idx : Nat) (sel : SelectExpr Q) :
    Except String (Int × TypedValue) :=
  match sel.caseWhen, sel.arithExpr with
  | some cw, _ => do
    let v ← evalCaseWhen env part idx cw
    pure (v, .int v)
  | none, some e => do
    let v ← evalArith env part idx e
    pure (v, .int v)
  | none, none =>
    if sel.column = "symbol" then pure (part.symbolValue, .int part.symbolValue)
    else match part.getColumn sel.column with
      | some c => pure (readCell part c idx)
      | none => pure (0, .int 0)

/-- The row and, if it has a float, the typed row. -/
def selectRow (env : Env) (stmt : SelectStmt Q) (part : Partition) (idx : Nat) :
    Except String (List (Int × TypedValue)) :=
  if stmt.isStar then pure (part.columns.map fun c => readCell part c idx)
  else stmt.plainColumns.mapM (selectCell env part idx)

def TypedValue.isFloat : TypedValue → Bool
  | .int _ => false
  | .float _ => true

def QueryResult.addRow (r : QueryResult) (cells : List (Int × TypedValue)) : QueryResult :=
  { r with
    rows := r.rows ++ [cells.map Prod.fst]
    typedRows := if cells.any fun c => c.2.isFloat then r.typedRows ++ [cells.map Prod.snd]
      else r.typedRows }

def QueryResult.full (r : QueryResult) (limit : Option Nat) : Bool :=
  match limit with
  | some n => n ≤ r.rows.length
  | none => false

/-- Collect the selected rows of a partition until the result is full. -/
def collectRows (env : Env) (stmt : SelectStmt Q) (part : Partition) (limit : Option Nat) :
    List Nat → QueryResult → Except String QueryResult
  | [], r => .ok r
  | i :: is, r =>
    if r.full limit then .ok r
    else do collectRows env stmt part limit is (r.addRow (← selectRow env stmt part i))

/-- How many rows are collected: all to be sorted, else limit plus offset in 64 bits. `SIZE_MAX` is
no limit. -/
def collectLimit (stmt : SelectStmt Q) : Option Nat :=
  if stmt.orderBy.isSome then none
  else
    match stmt.limit, stmt.offset with
    | none, none => none
    | some l, none => some (toSize l)
    | limit, some o => some (((limit.map toSize).getD sizeMax + toSize o) % 2 ^ 64)

def scanPartitions (env : Env) (stmt : SelectStmt Q) :
    List Partition → QueryResult → Except String QueryResult
  | [], r => .ok r
  | part :: parts, r => do
    let (sel, scanned) ← collectAndIntersect env part stmt.whereClause
    let r ← collectRows env stmt part (collectLimit stmt) (applySample stmt.sampleRate sel) r
    scanPartitions env stmt parts { r with rowsScanned := r.rowsScanned + scanned }

/-- `exec_simple_select`, the serial path. -/
def execSimpleSelect (env : Env) (stmt : SelectStmt Q) (parts : List Partition) :
    Except String QueryResult := do
  let r ← scanPartitions env stmt parts (selectHeader stmt parts)
  let r := applyOrderBy r stmt.orderBy stmt.offset stmt.limit
  pure (if stmt.orderBy.isSome then r else applyOffsetLimit r stmt.offset stmt.limit)

/-! ## What the scan returns -/

def takeUpTo {α : Type} (limit : Option Nat) (l : List α) : List α :=
  match limit with
  | some n => l.take n
  | none => l

section

variable {α : Type} {limit : Option Nat} {l : List α}

@[simp] theorem takeUpTo_nil (limit : Option Nat) : takeUpTo limit ([] : List α) = [] := by
  cases limit with
  | none => rfl
  | some n => exact take_nil

theorem takeUpTo_append (h : limit.any (fun n => n ≤ l.length)) (hl : takeUpTo limit l = l)
    (l' : List α) : takeUpTo limit (l ++ l') = l := by
  cases limit with
  | none => simp at h
  | some n =>
    simp only [Option.any_some, decide_eq_true_eq] at h
    simp only [takeUpTo] at hl ⊢
    rw [take_append_of_le_length h, hl]

theorem takeUpTo_append_singleton (h : limit.any (fun n => n ≤ l.length) = false) (a : α) :
    takeUpTo limit (l ++ [a]) = l ++ [a] := by
  cases limit with
  | none => rfl
  | some n =>
    simp only [Option.any_some, decide_eq_false_iff_not] at h
    refine take_of_length_le ?_
    rw [length_append, length_singleton]
    omega

theorem takeUpTo_takeUpTo_append (limit : Option Nat) (l l' : List α) :
    takeUpTo limit (takeUpTo limit l ++ l') = takeUpTo limit (l ++ l') := by
  cases limit with
  | none => rfl
  | some n =>
    simp only [takeUpTo]
    rw [take_append, take_append, take_take, min_self, length_take]
    congr 2
    omega

theorem takeUpTo_takeUpTo (limit : Option Nat) (l : List α) :
    takeUpTo limit (takeUpTo limit l) = takeUpTo limit l := by
  simpa using takeUpTo_takeUpTo_append limit l []

theorem takeUpTo_subset : takeUpTo limit l ⊆ l := by
  cases limit with
  | none => exact fun _ h => h
  | some n => exact take_subset _ _

end

section

variable {env : Env} {stmt : SelectStmt Q} {parts : List Partition} {sel : Partition → List Nat}
  {cells : Partition × Nat → List (Int × TypedValue)} {xs : List (Partition × Nat)}
  {header r : QueryResult}

/-- Behind the header, the rows of the cells and the typed ones among them. -/
structure Scanned (header : QueryResult) (cells : Partition × Nat → List (Int × TypedValue))
    (xs : List (Partition × Nat)) (r : QueryResult) : Prop where
  names : r.columnNames = header.columnNames
  error : r.error = header.error
  rows : r.rows = xs.map fun x => (cells x).map Prod.fst
  typedRows : r.typedRows = (xs.filter fun x => (cells x).any fun c => c.2.isFloat).map
    fun x => (cells x).map Prod.snd

theorem Scanned.addRow (h : Scanned header cells xs r) (x : Partition × Nat) :
    Scanned header cells (xs ++ [x]) (r.addRow (cells x)) := by
  refine ⟨h.names, h.error, by simp [QueryResult.addRow, h.rows], ?_⟩
  rw [filter_append, map_append, ← h.typedRows, QueryResult.addRow]
  split <;> simp [*]

theorem Scanned.collectRows {part : Partition} {limit : Option Nat} {is : List Nat}
    (hcells : ∀ i ∈ is, selectRow env stmt part i = .ok (cells (part, i)))
    (h : Scanned header cells xs r) (hxs : takeUpTo limit xs = xs) :
    ∃ r', collectRows env stmt part limit is r = .ok r' ∧
      Scanned header cells (takeUpTo limit (xs ++ is.map (.mk part))) r' := by
  induction is generalizing r xs with
  | nil => exact ⟨r, rfl, by rwa [map_nil, append_nil, hxs]⟩
  | cons i is ih =>
    rw [forall_mem_cons] at hcells
    have hfull : r.full limit = limit.any fun n => n ≤ xs.length := by
      cases limit <;> simp [QueryResult.full, h.rows]
    rw [collectRows, hcells.1, hfull]
    split_ifs with hfull
    · exact ⟨r, rfl, by rwa [takeUpTo_append hfull hxs]⟩
    rw [Bool.not_eq_true] at hfull
    obtain ⟨r', hr', hscan⟩ := ih hcells.2 (h.addRow (part, i)) (takeUpTo_append_singleton hfull _)
    exact ⟨r', hr', by simpa using hscan⟩

theorem Scanned.scanPartitions
    (hsel : ∀ p ∈ parts, ∃ l n, collectAndIntersect env p stmt.whereClause = .ok (l, n) ∧
      applySample stmt.sampleRate l = sel p)
    (hcells : ∀ x ∈ tagged parts sel, selectRow env stmt x.1 x.2 = .ok (cells x))
    (h : Scanned header cells xs r) (hxs : takeUpTo (collectLimit stmt) xs = xs) :
    ∃ r', scanPartitions env stmt parts r = .ok r' ∧
      Scanned header cells (takeUpTo (collectLimit stmt) (xs ++ tagged parts sel)) r' := by
  induction parts generalizing r xs with
  | nil => exact ⟨r, rfl, by rwa [tagged_nil, append_nil, hxs]⟩
  | cons p parts ih =>
    rw [forall_mem_cons] at hsel
    obtain ⟨⟨l, n, hl, hsample⟩, hrest⟩ := hsel
    rw [tagged_cons, forall_mem_append] at hcells
    obtain ⟨r1, hr1, h1⟩ := h.collectRows (fun i hi => hcells.1 (p, i) (mem_map_of_mem hi)) hxs
    obtain ⟨r2, hr2, h2⟩ := ih (r := { r1 with rowsScanned := r1.rowsScanned + n }) hrest hcells.2
      ⟨h1.names, h1.error, h1.rows, h1.typedRows⟩ (takeUpTo_takeUpTo _ _)
    refine ⟨r2, ?_, ?_⟩
    · rw [scanPartitions, hl]
      change (Sql.collectRows env stmt p _ (applySample stmt.sampleRate l) r >>= _) = _
      rw [hsample, hr1]
      exact hr2
    · rwa [takeUpTo_takeUpTo_append, append_assoc] at h2

theorem selectHeader_rows (stmt : SelectStmt Q) (parts : List Partition) :
    (selectHeader stmt parts).rows = [] ∧ (selectHeader stmt parts).typedRows = [] ∧
      (selectHeader stmt parts).error = "" := by
  cases parts with
  | nil => exact ⟨rfl, rfl, rfl⟩
  | cons p ps =>
    by_cases hstar : stmt.isStar = true <;> simp [selectHeader, hstar]

theorem scanPartitions_scanned (stmt : SelectStmt Q)
    (hsel : ∀ p ∈ parts, ∃ l n, collectAndIntersect env p stmt.whereClause = .ok (l, n) ∧
      applySample stmt.sampleRate l = sel p)
    (hcells : ∀ x ∈ tagged parts sel, selectRow env stmt x.1 x.2 = .ok (cells x)) :
    ∃ r, scanPartitions env stmt parts (selectHeader stmt parts) = .ok r ∧
      Scanned (selectHeader stmt parts) cells
        (takeUpTo (collectLimit stmt) (tagged parts sel)) r := by
  obtain ⟨hrows, htyped, -⟩ := selectHeader_rows stmt parts
  exact Scanned.scanPartitions hsel hcells ⟨rfl, rfl, hrows, htyped⟩ (takeUpTo_nil _)

end

end Zepto.Sql
