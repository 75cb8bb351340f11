import Zepto.Lib.Loops
import Zepto.Sql.Meaning

/-!
# Plain selects

A row is named by its partition and its number. `tableRows` are the rows of the table that make
the `WHERE` true; `scannedRows` are the rows the executor reads its answer from, in order.
-/

namespace Zepto.Sql

open List Zepto.Lib Zepto.Storage

variable {Q : Type}

/-- A plain condition has no nested queries. -/
def plainReading (env : Env) (db : Database) : Reading Q := readingOf env db fun _ => {}

/-- The rows of the table that make the `WHERE` true. -/
def tableRows (env : Env) (db : Database) (table : String) (w : Option (Expr Q)) :
    List (Partition × Nat) :=
  tagged (db.findPartitions table) (matchingRows (plainReading env db) w)

/-! ## Plain statements -/

/-- Comparisons, `BETWEEN` and `IN` of columns with integer literals, combined. -/
def Expr.isPlain : Expr Q → Bool
  | .and l r | .or l r => l.isPlain && r.isPlain
  | .not l => l.isPlain
  | .compare c => c.lhsExpr.isNone && c.valueExpr.isNone && !c.isFloat && !c.isString
  | .between _ _ lhs _ _ => lhs.isNone
  | .inList .. => true
  | _ => false

structure SelectExpr.Plain (sel : SelectExpr Q) : Prop where
  agg : sel.agg = .none
  windowFunc : sel.windowFunc = .none
  arithExpr : sel.arithExpr = none
  caseWhen : sel.caseWhen = none

/-- A select of plain columns of a table under a plain condition. -/
structure PlainSelect (ses : Session) (stmt : SelectStmt Q) : Prop where
  columns : ∀ sel ∈ stmt.columns, sel.Plain
  whereClause : ∀ e, stmt.whereClause = some e → e.isPlain = true
  distinct : stmt.distinct = false
  fromSubquery : stmt.fromSubquery = none
  view : ses.db.views.lookup stmt.fromTable = none
  cte : ses.ctes.lookup stmt.fromTable = none
  join : stmt.join = none
  groupBy : stmt.groupBy = none
  orderBy : stmt.orderBy = none
  limit : stmt.limit = none
  offset : stmt.offset = none
  sampleRate : stmt.sampleRate = none
  having : stmt.having = none
  setOp : stmt.setOp = .none

def plainValue (p : Partition) (i : Nat) (sel : SelectExpr Q) : Int :=
  if sel.column = "symbol" then p.symbolValue
  else match p.getColumn sel.column with
    | some c => (readCell p c i).1
    | none => 0

def projectRow (stmt : SelectStmt Q) (row : Partition × Nat) : List Int :=
  if stmt.isStar then row.1.columns.map fun c => (readCell row.1 c row.2).1
  else stmt.columns.map (plainValue row.1 row.2)

theorem Expr.of_isPlain {e : Expr Q} (h : e.isPlain) :
    e.onColumns ∧ (e.hasLiterals && e.subqueryFree) := by
  rw [Bool.and_eq_true]
  induction e with
  | and l r ihl ihr | or l r ihl ihr =>
    simp only [isPlain, Bool.and_eq_true] at h
    simp [onColumns, hasLiterals, subqueryFree, ihl h.1, ihr h.2]
  | not l ih => exact ih h
  | compare c =>
    simp only [isPlain, Bool.and_eq_true] at h
    exact ⟨h.1.1.1, h.1.1.2, rfl⟩
  | between => exact ⟨h, rfl, rfl⟩
  | inList => exact ⟨rfl, rfl, rfl⟩
  | _ => cases h

/-! ## The rows the answer is read from -/

/-- The rows the executor answers from, in order. -/
def scannedRows (env : Env) (db : Database) (table : String) (w : Option (Expr Q)) :
    List (Partition × Nat) :=
  tagged (prunedPartitions db table w) (chosenRows env w)

section

variable (env : Env) {stmt : SelectStmt Q} (part : Partition)

theorem selectCell_plain {sel : SelectExpr Q} (h : sel.Plain) (i : Nat) :
    ∃ cell, selectCell env part i sel = .ok cell ∧ cell.1 = plainValue part i sel := by
  simp only [selectCell, plainValue, h.caseWhen, h.arithExpr]
  split
  · exact ⟨_, rfl, rfl⟩
  · cases part.getColumn sel.column with
    | none | some c => exact ⟨_, rfl, rfl⟩

theorem mapM_plain {sels : List (SelectExpr Q)} (h : ∀ sel ∈ sels, sel.Plain) (i : Nat) :
    ∃ cells, sels.mapM (selectCell env part i) = .ok cells ∧
      cells.map Prod.fst = sels.map (plainValue part i) := by
  induction sels with
  | nil => exact ⟨[], rfl, rfl⟩
  | cons sel sels ih =>
    obtain ⟨cell, hcell, hval⟩ := selectCell_plain env part (h sel mem_cons_self) i
    obtain ⟨cells, hcells, hvals⟩ := ih fun s hs => h s (mem_cons_of_mem _ hs)
    refine ⟨cell :: cells, ?_, ?_⟩
    · rw [mapM_cons, hcell, hcells]
      rfl
    · rw [map_cons, map_cons, hvals, hval]

theorem plainColumns_eq (h : ∀ sel ∈ stmt.columns, sel.Plain) :
    stmt.plainColumns = stmt.columns := by
  unfold SelectStmt.plainColumns
  rw [filter_eq_self]
  intro sel hsel
  simp [(h sel hsel).windowFunc]

theorem selectRow_plain (h : ∀ sel ∈ stmt.columns, sel.Plain) (i : Nat) :
    ∃ cells, selectRow env stmt part i = .ok cells ∧
      cells.map Prod.fst = projectRow stmt (part, i) := by
  unfold selectRow projectRow
  split
  · refine ⟨_, rfl, ?_⟩
    rw [map_map]
    rfl
  · rw [plainColumns_eq h]
    exact mapM_plain env part h i

theorem collectAndIntersect_plain {w : Option (Expr Q)} (h : ∀ e, w = some e → e.isPlain) :
    ∃ n, collectAndIntersect env part w = .ok (chosenRows env w part, n) := by
  obtain ⟨l, n, hl⟩ := collectAndIntersect_total env part
    fun e he i => scanRow_total env part i (e.of_isPlain (h e he)).1
  exact ⟨n, by simp [chosenRows, hl]⟩

/-- The loop over the partitions collects the selected rows of each. -/
theorem scanPartitions_plain (hcols : ∀ sel ∈ stmt.columns, sel.Plain)
    (hwhere : ∀ e, stmt.whereClause = some e → e.isPlain)
    (hlimit : collectLimit stmt = none) (hsample : stmt.sampleRate = none)
    (parts : List Partition) :
    ∃ r, scanPartitions env stmt parts (selectHeader stmt parts) = .ok r ∧ r.error = "" ∧
      r.rows = (tagged parts (chosenRows env stmt.whereClause)).map (projectRow stmt) := by
  choose cells hcells hrow using fun x : Partition × Nat => selectRow_plain env x.1 hcols x.2
  have hsel : ∀ p ∈ parts, ∃ l n, collectAndIntersect env p stmt.whereClause = .ok (l, n) ∧
      applySample stmt.sampleRate l = chosenRows env stmt.whereClause p := by
    intro p _
    obtain ⟨n, hn⟩ := collectAndIntersect_plain env p hwhere
    exact ⟨_, n, hn, by rw [hsample, applySample]⟩
  obtain ⟨r, hr, hscan⟩ := scanPartitions_scanned stmt hsel fun x _ => hcells x
  refine ⟨r, hr, hscan.error.trans (selectHeader_rows stmt parts).2.2, ?_⟩
  rw [hscan.rows, hlimit]
  exact map_congr_left fun x _ => hrow x

end

/-! ## The way through the executor -/

section

variable {Stats : Type} {ses : Session} {stmt : SelectStmt Q}

theorem prepare_plain (X : Executors Stats) (run : Runner Q Stats) (h : PlainSelect ses stmt)
    (st : Stats) : prepare X ses run stmt st =
      (none, stmt, if needsCostPlanning stmt then X.updateStats st ses.db.partitions else st) := by
  refine prepare_eq X ses run st ?_ (by rw [h.having]; rfl)
  rw [Option.all_eq_true]
  exact fun e he => (e.of_isPlain (h.whereClause e he)).2

theorem hasAgg_plain (h : ∀ sel ∈ stmt.columns, sel.Plain) : stmt.hasAgg = false := by
  unfold SelectStmt.hasAgg
  rw [any_eq_false]
  intro sel hsel
  simp [(h sel hsel).agg]

theorem noWindow_plain (h : ∀ sel ∈ stmt.columns, sel.Plain) :
    (stmt.columns.any fun c => c.windowFunc ≠ .none) = false := by
  rw [any_eq_false]
  intro sel hsel
  simp [(h sel hsel).windowFunc]

/-- A plain statement is a scan of the pruned partitions. -/
theorem execStep_plain (X : Executors Stats) (run : Runner Q Stats) (h : PlainSelect ses stmt)
    (st : Stats) :
    (execStep X ses run stmt st).1 =
      execSimpleSelect ses.env stmt (prunedPartitions ses.db stmt.fromTable stmt.whereClause) := by
  unfold execStep
  rw [prepare_plain X run h st]
  simp only [h.setOp, execBody, h.fromSubquery, execNamed, h.view, h.cte, execTable, h.join,
    execScan, hasAgg_plain h.columns, noWindow_plain h.columns]
  cases execSimpleSelect ses.env stmt (prunedPartitions ses.db stmt.fromTable stmt.whereClause) with
  | error e | ok r => rfl

/-- A plain statement is answered, without an error, from the scanned rows. -/
theorem execSelect_plain (X : Executors Stats) (n : Nat) {stmt : SelectStmt (Query n)}
    (h : PlainSelect ses stmt) (st : Stats) :
    ∃ r, (execSelect X ses (n + 1) stmt st).1 = .ok r ∧ r.error = "" ∧
      r.rows = (scannedRows ses.env ses.db stmt.fromTable stmt.whereClause).map
        (projectRow stmt) := by
  have hlimit : collectLimit stmt = none := by simp [collectLimit, h.limit, h.offset]
  obtain ⟨r, hr, herr, hrows⟩ := scanPartitions_plain ses.env h.columns h.whereClause
    hlimit h.sampleRate (prunedPartitions ses.db stmt.fromTable stmt.whereClause)
  refine ⟨r, ?_, herr, ?_⟩
  · have hstep := execStep_plain X (execSelect X ses n) h st
    simp only [execSimpleSelect, hr, h.orderBy, h.offset, h.limit] at hstep
    exact hstep
  · rw [hrows]
    rfl

end

/-! ### One row of one symbol -/

def idleExecutors : Executors Unit where
  agg _ _ _ := .ok {}
  groupAgg _ _ _ := .ok {}
  asofJoin _ _ _ _ := .ok {}
  hashJoin _ _ _ _ _ := .ok {}
  unionJoin _ _ _ _ := .ok {}
  plusJoin _ _ _ _ := .ok {}
  windowJoin _ _ _ _ := .ok {}
  windowFunctions _ r := .ok r
  virtualSelect _ _ r _ := .ok r
  explain _ _ _ := .ok {}
  updateStats st _ := st
  updateStats_idem _ _ := rfl
  estimateRows _ := 0
  filteredRows n := n
  filteredRows_le _ := Nat.le_refl _

/-- A partition with one column of 64-bit prices. -/
def priceRows (key : PartitionKey) (prices : List Int) (h : 8 * prices.length < 2 ^ 32) :
    Partition where
  key
  columns := [⟨"price", .int64, some 0, prices.length, prices.length⟩]
  mem x := .ofNat 8 (unsigned 64 (prices.getD (x / 8) 0) / 256 ^ (x % 8))
  arenaUsed := 8 * prices.length
  arenaSize := 8 * prices.length
  fits := by
    intro c hc
    rw [mem_singleton.mp hc]
    exact ⟨le_refl _, nofun, by dsimp only; omega⟩
  apart := pairwise_singleton _ _
  handedOut := by
    intro c hc
    rw [mem_singleton.mp hc]
    simp [ColumnVector.stop, ColumnVector.addr, ColumnType.size]
  used_le := le_refl _
  arena_lt := h

def onePrice : Partition := priceRows ⟨1, 1, 0⟩ [0] (by decide)

/-- The table `trades` with one partition. -/
def tradesOf (p : Partition) : Database where
  registry := .singleton "trades" { columns := [⟨"price", .int64⟩], tableId := 1 }
  partitions := [p]
  keys_nodup := nodup_singleton _

def onePriceDb : Database := tradesOf onePrice

def threePricesDb : Database := tradesOf (priceRows ⟨1, 1, 0⟩ [5, 7, 9] (by decide))

def onePriceSession : Session := { env := { now := 0 }, db := onePriceDb }

/-- `SELECT price FROM trades WHERE symbol op 1`. -/
def selectPrice (op : CompareOp) : SelectStmt (Query 0) where
  columns := [{ column := "price" }]
  fromTable := "trades"
  whereClause := some (.compare { column := "symbol", op, value := 1 })

theorem selectPrice_plain (op : CompareOp) : PlainSelect onePriceSession (selectPrice op) where
  columns := by
    intro sel hsel
    rw [mem_singleton.mp hsel]
    exact ⟨rfl, rfl, rfl, rfl⟩
  whereClause := by
    intro e he
    cases he
    rfl
  distinct := rfl
  fromSubquery := rfl
  view := rfl
  cte := rfl
  join := rfl
  groupBy := rfl
  orderBy := rfl
  limit := rfl
  offset := rfl
  sampleRate := rfl
  having := rfl
  setOp := rfl

end Zepto.Sql
