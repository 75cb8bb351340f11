import Zepto.Sql.IndexScan
import Zepto.Sql.SymbolForm

/-!
# Plain selects return the rows of the condition

The partitions are chosen by the first `symbol = x` or `symbol IN` list of the tree, and by the
first time window of the conjunction; the rows by the lookups and the test that remains. For a
condition with at most one test that chooses by symbol, among its conjuncts, and on partitions where
the lookups answer what is asked of them (`Scannable`), each row that makes the condition true is
scanned once, and no other.
-/

namespace Zepto.Sql

open List Zepto.Lib Zepto.Storage

variable {Q : Type}

/-! ## Conditions that choose partitions -/

namespace Expr

/-- A `symbol IN` list stands anywhere in the tree. -/
def listsSymbols : Expr Q → Bool
  | .and l r | .or l r => l.listsSymbols || r.listsSymbols
  | .not l => l.listsSymbols
  | .inList _ col _ neg => col = "symbol" && !neg
  | _ => false

/-- `symbol IN` different 32-bit numbers. -/
def symbolIn : Expr Q → Bool
  | .inList _ col vals neg => col = "symbol" && !neg && !vals.isEmpty && vals.Nodup &&
      vals.all fun v => 0 ≤ v && v < 2 ^ 32
  | _ => false

def unlisted (e : Expr Q) : Bool := e.settled && !e.listsSymbols

/-- One conjunct tests the symbol by `=`, or one by a list, or none chooses by symbol. -/
def choosable (dict : StringDictionary) (e : Expr Q) : Bool :=
  e.withOne (symbolIs dict) settled || (e.withOne symbolIn unlisted || e.unlisted)

end Expr

section

variable {e : Expr Q}

theorem findSymbolIn_of_unlisted (h : e.listsSymbols = false) : findSymbolIn e = none := by
  induction e with
  | and l r ihl ihr | or l r ihl ihr =>
    rw [Expr.listsSymbols, Bool.or_eq_false_iff] at h
    rw [findSymbolIn, ihl h.1, ihr h.2]
    rfl
  | not l ih => exact ih h
  | inList t col vals neg =>
    rw [findSymbolIn, if_neg]
    rintro ⟨rfl, rfl⟩
    cases h
  | _ => rfl

/-- The list is found, and the scan keeps to it. -/
theorem symbolIn_spec (env : Env) {p : Partition} (i : Nat) (hsym : p.getColumn "symbol" = none)
    (h : e.withOne Expr.symbolIn Expr.unlisted) : e.settled ∧
      ∃ v vs, findSymbolIn e = some (v :: vs) ∧ (v :: vs).Nodup ∧
        (∀ u ∈ v :: vs, 0 ≤ u ∧ u < 2 ^ 32) ∧
        (scanRow env p i e = .ok true → p.symbolValue ∈ v :: vs) := by
  induction e with
  | and l r ihl ihr =>
    simp only [Expr.withOne, Expr.unlisted, Bool.or_eq_true, Bool.and_eq_true,
      Bool.not_eq_true'] at h
    have hscan : scanRow env p i (.and l r) = .ok true →
        scanRow env p i l = .ok true ∧ scanRow env p i r = .ok true := by
      simp only [scanRow, bind_eq_ok, pure_eq_ok, Bool.and_eq_true]
      rintro ⟨_, hl, _, hr, rfl, rfl⟩
      exact ⟨hl, hr⟩
    rw [Expr.settled, Bool.and_eq_true]
    rcases h with ⟨hl, hr, -⟩ | ⟨⟨hl, hlist⟩, hr⟩
    · obtain ⟨hset, v, vs, hfind, hnd, hrange, hmem⟩ := ihl hl
      exact ⟨⟨hset, hr⟩, v, vs, by rw [findSymbolIn, hfind]; rfl, hnd, hrange,
        fun hb => hmem (hscan hb).1⟩
    · obtain ⟨hset, v, vs, hfind, hnd, hrange, hmem⟩ := ihr hr
      exact ⟨⟨hl, hset⟩, v, vs, by rw [findSymbolIn, findSymbolIn_of_unlisted hlist, hfind]; rfl,
        hnd, hrange, fun hb => hmem (hscan hb).2⟩
  | inList t col vals neg =>
    simp only [Expr.withOne, Expr.symbolIn, Bool.and_eq_true, decide_eq_true_eq, Bool.not_eq_true',
      all_eq_true] at h
    obtain ⟨⟨⟨⟨rfl, rfl⟩, hne⟩, hnd⟩, hrange⟩ := h
    cases vals with
    | nil => cases hne
    | cons v vs =>
      refine ⟨rfl, v, vs, rfl, hnd, hrange, fun hb => ?_⟩
      simpa [scanRow, inTestScan, hsym] using hb
  | _ => cases h

/-- The first time window of the conjunction is one of its conjuncts. -/
def timeBetween : Expr Q → Bool
  | .between _ col _ _ _ => col = "timestamp" || col = "recv_ts"
  | _ => false

theorem findTimeRange_eq_some {lo hi : Int} (h : findTimeRange e = some (lo, hi)) :
    ∃ t col lhs, .between t col lhs lo hi ∈ conjuncts e ∧
      timeBetween (.between t col lhs lo hi : Expr Q) := by
  induction e with
  | and l r ihl ihr =>
    rw [findTimeRange, Option.or_eq_some_iff] at h
    rcases h with h | ⟨-, h⟩
    · obtain ⟨t, col, lhs, hmem, hcol⟩ := ihl h
      exact ⟨t, col, lhs, mem_append_left _ hmem, hcol⟩
    · obtain ⟨t, col, lhs, hmem, hcol⟩ := ihr h
      exact ⟨t, col, lhs, mem_append_right _ hmem, hcol⟩
  | between t col lhs lo' hi' =>
    simp only [findTimeRange, Option.ite_none_right_eq_some, Option.some.injEq,
      Prod.mk.injEq] at h
    obtain ⟨hcol, rfl, rfl⟩ := h
    exact ⟨t, col, lhs, mem_singleton_self _, by simpa [timeBetween] using hcol⟩
  | _ => cases h

end

/-! ## Partitions the lookups answer for -/

/-- A lookup is made for the column: it has `s#`, or `g#` or `p#` and an equality, or is a time
column beside a time window. -/
def lookedUp (p : Partition) (e : Expr Q) (col : String) : Bool :=
  p.isSorted col || ((p.isGrouped col || p.isParted col) && (conjuncts e).any fun
      | .compare c => c.column = col && c.op = .eq
      | _ => false) ||
    ((col = "timestamp" || col = "recv_ts") && (conjuncts e).any timeBetween)

def testsLookedUp (p : Partition) (e : Expr Q) : Expr Q → Bool
  | .compare c => lookedUp p e c.column
  | .between _ col _ _ _ => lookedUp p e col
  | _ => false

/-- The timestamps are words and lie in the hour of the partition. -/
structure InHour (p : Partition) : Prop where
  words : readsWords p "timestamp" = true
  hour : int64Min ≤ p.key.hourEpoch ∧ p.key.hourEpoch + nsPerHour ≤ int64Max
  rows : ∀ i < p.numRows, p.key.hourEpoch ≤ rowValue p i "timestamp" ∧
    rowValue p i "timestamp" < p.key.hourEpoch + nsPerHour

/-- The attributes are true, and answer the tests that are not made again. -/
structure Scannable (p : Partition) (e : Expr Q) : Prop where
  truthful : Truthful p
  integers : OverIntegers p e
  symbol : p.getColumn "symbol" = none
  words : ∀ col, p.isSorted col → readsWords p col
  /-- A time window is one of `timestamp`. -/
  window : ∀ t col lhs lo hi, .between t col lhs lo hi ∈ conjuncts e →
    timeBetween (.between t col lhs lo hi : Expr Q) → col = "timestamp" ∧ InHour p
  /-- Some conjunct makes the executor test every row again, or the lookups answer them all. -/
  tests : (∃ x ∈ conjuncts e, testsLookedUp p e x = false) ∨ ∀ x ∈ conjuncts e, answered p e x

section

variable {p : Partition} {e : Expr Q}

theorem lookedUp_of_indexed (he : OverIntegers p e) {col : String}
    (h : col ∈ indexedCols p (some e)) : lookedUp p e col := by
  simp only [indexedCols, mem_append, mem_map] at h
  rcases h with (htime | ⟨pred, hpred, rfl⟩) | ⟨pred, hpred, rfl⟩
  · cases hrange : extractTimeRange (some e) with
    | none => simp [hrange] at htime
    | some range =>
      obtain ⟨lo, hi⟩ := range
      obtain ⟨t, c, lhs, hmem, hcol⟩ := findTimeRange_eq_some hrange
      have hany : (conjuncts e).any timeBetween := any_eq_true.mpr ⟨_, hmem, hcol⟩
      simp only [hrange, Option.isSome_some, if_true, mem_cons, not_mem_nil, or_false] at htime
      simp [lookedUp, hany, htime]
  · simp [lookedUp, (SortedIntegers.collectSorted (forall_mem_nil _) he pred hpred).1]
  · obtain ⟨c, hc, ⟨hop, -, hattr⟩, rfl⟩ := mem_collectEqs.mp hpred
    have hany : (conjuncts e).any (fun
        | .compare d => decide (d.column = c.column) && decide (d.op = .eq)
        | _ => false) := any_eq_true.mpr ⟨_, hc, by simp [hop]⟩
    simp [lookedUp, hattr, hany]

theorem tests_of_allIndexed {cols : List String} (hcols : ∀ col ∈ cols, lookedUp p e col)
    {x : Expr Q} (h : allIndexed cols x) : ∀ y ∈ conjuncts x, testsLookedUp p e y := by
  induction x with
  | and l r ihl ihr =>
    rw [allIndexed, Bool.and_eq_true] at h
    rw [conjuncts, forall_mem_append]
    exact ⟨ihl h.1, ihr h.2⟩
  | compare | between => exact forall_mem_singleton.mpr (hcols _ (of_decide_eq_true h))
  | _ => cases h

namespace Scannable

variable (h : Scannable p e)

include h

theorem indexSafe (env : Env) : IndexSafe env p e where
  kept i hi hholds := by
    refine ⟨fun lo hi hrange hwords => ?_, fun pred hpred hw => ?_, fun pred hpred hsym => ?_⟩
    · obtain ⟨t, col, lhs, hmem, htime⟩ := findTimeRange_eq_some hrange
      obtain ⟨rfl, hhour⟩ := h.window t col lhs lo hi hmem htime
      exact absurd ⟨hhour.words, t, lhs, hmem⟩ hwords
    · have hs := (SortedIntegers.collectSorted (forall_mem_nil _) h.integers pred hpred).1
      rw [h.words _ hs] at hw
      cases hw
    · obtain ⟨c, -, ⟨-, -, hattr⟩, rfl⟩ := mem_collectEqs.mp hpred
      have hstored := h.truthful.stored c.column (.inr (Bool.or_eq_true _ _ ▸ hattr))
      simp only at hsym
      rw [hsym, h.symbol] at hstored
      cases hstored
  dropped hall i _ x hx hans := by
    have htests := tests_of_allIndexed (fun col => lookedUp_of_indexed h.integers) hall
    rcases h.tests with ⟨y, hy, hno⟩ | hanswered
    · rw [htests y hy] at hno
      cases hno
    · rw [hanswered x hx] at hans
      cases hans
  symbolIn _ _ hsome := by
    rw [h.symbol] at hsome
    cases hsome

theorem chosenRows_eq (env : Env) : chosenRows env (some e) p = scanWhere env p (some e) := by
  have hsel : (collectAndIntersect env p (some e)).map Prod.fst =
      .ok (scanWhere env p (some e)) := by
    by_cases hidx : Unindexed p (some e)
    · rw [collectAndIntersect_of_unindexed hidx, evalWhere_of_overIntegers h.integers]
    · exact (h.truthful.selection_eq_iff h.integers hidx).mpr (h.indexSafe env)
  unfold chosenRows
  cases hc : collectAndIntersect env p (some e) with
  | error msg =>
    rw [hc] at hsel
    cases hsel
  | ok r =>
    rw [hc] at hsel
    exact Except.ok.inj hsel

/-- The window of a row that passes leaves its partition in. -/
theorem inWindow {env : Env} {i : Nat} (hrow : i < p.numRows) (hholds : Holds env p i e)
    {lo hi : Int}
    (hrange : findTimeRange e = some (lo, hi)) :
    p.overlapsTimeRange lo hi = true ∧ hourOverlaps p lo hi = true := by
  obtain ⟨t, col, lhs, hmem, htime⟩ := findTimeRange_eq_some hrange
  obtain ⟨rfl, hhour⟩ := h.window t col lhs lo hi hmem htime
  have hvalue := (holds_iff_conjuncts h.integers).mp hholds _ hmem
  rw [holds_between (overIntegers_of_conjunct h.integers hmem) (by decide)] at hvalue
  refine ⟨((h.truthful.timeIndexed_iff hhour.words).mpr ⟨hrow, hvalue⟩).1, ?_⟩
  have htime := hhour.rows i hrow
  have hns : (0 : Int) ≤ nsPerHour := by decide
  have hwrap := wrap64_of_range (by have := hhour.hour.1; omega) hhour.hour.2
  simp only [hourOverlaps, hwrap, Bool.and_eq_true, decide_eq_true_eq]
  omega

end Scannable

end

/-! ## Every row of the condition is scanned once -/

section

variable {env : Env} {db : Database} {table : String} {p : Partition} {i : Nat}

/-- The table is registered, or none is. -/
def KnownTable (db : Database) (table : String) : Prop :=
  table = "" ∨ db.registry.tableCount = 0 ∨ (db.registry.lookup table).isSome

theorem inTable_eq_inScope (h : KnownTable db table) :
    db.inTable table p = inScope (db.registry.getTableId table) p := by
  have hknown : ¬(table ≠ "" ∧ 0 < db.registry.tableCount ∧ db.registry.lookup table = none) := by
    rintro ⟨hne, hpos, hnone⟩
    rcases h with h | h | h
    · exact hne h
    · omega
    · simp [hnone] at h
  rw [Database.inTable, decide_eq_false hknown]
  rfl

theorem listedTimes_eq_one {vals : List Int} (hnd : vals.Nodup)
    (hrange : ∀ v ∈ vals, 0 ≤ v ∧ v < 2 ^ 32) (hmem : p.symbolValue ∈ vals) :
    listedTimes vals p = 1 := by
  rw [← count_eq_one_of_mem hnd hmem, listedTimes, count]
  refine countP_congr fun v hv => ?_
  have hiff := toSymbolId_eq_iff p (hrange v hv).1 (hrange v hv).2
  simp only [decide_eq_true_eq, beq_iff_eq]
  exact eq_comm.trans (hiff.trans eq_comm)

theorem scanCount_of_outside {w : Option (Expr Q)} (h : KnownTable db table)
    (hout : db.inTable table p = false) : scanCount db table w p = 0 := by
  have hscope := (inTable_eq_inScope h).symm.trans hout
  simp only [scanCount, hscope, hout]
  split
  · rfl
  · split
    · rfl
    · split <;> rfl

/-- A row that passes the scan is scanned once if it makes the condition true, else not at all. -/
theorem scanCount_eq {e : Expr Q} (h : Scannable p e) (hform : e.choosable db.symbolDict)
    (htable : KnownTable db table) (hin : db.inTable table p = true) (hi : i < p.numRows)
    (hholds : Holds env p i e) :
    scanCount db table (some e) p = if rowMeans (plainReading env db) p i e then 1 else 0 := by
  obtain ⟨b, hb⟩ := scanRow_ok env i h.integers
  obtain rfl : b = true := by simpa [Holds, hb, passes] using hholds
  have hb' : scanRow (plainReading env db : Reading Q).env p i e = .ok true := hb
  have hscope : inScope (db.registry.getTableId table) p = true :=
    (inTable_eq_inScope htable).symm.trans hin
  have hwindow : inWindow (findTimeRange e) p = true := by
    cases hrange : findTimeRange e with
    | none => rfl
    | some range => exact (h.inWindow hi hholds hrange).1
  simp only [scanCount, hasWhereSymbol, hasWhereSymbolIn, extractTimeRange, Option.bind_some]
  simp only [Expr.choosable, Bool.or_eq_true] at hform
  rcases hform with hform | hform | hform
  · obtain ⟨v, hv, hlo, hhi, hmeans⟩ := withOne_spec hform (.inr h.symbol) hb'
    have hv' : findSymbol db.symbolDict e = some v := hv
    simp only [hv', hmeans, hscope, hwindow, toSymbolId_eq_iff p hlo hhi, Bool.true_and,
      Bool.and_true]
  · obtain ⟨hset, v, vs, hfind, hnd, hrange, hmem⟩ := symbolIn_spec env i h.symbol hform
    rw [rowMeans_of_settled hset (.inr h.symbol) hb', findSymbol_of_settled _ hset]
    simp only [hfind, hscope, hwindow, Bool.and_true]
    exact listedTimes_eq_one hnd hrange (hmem hb)
  · rw [Expr.unlisted, Bool.and_eq_true, Bool.not_eq_true'] at hform
    rw [rowMeans_of_settled hform.1 (.inr h.symbol) hb', findSymbol_of_settled _ hform.1]
    simp only [findSymbolIn_of_unlisted hform.2]
    cases hrange : findTimeRange e with
    | none => simp [hin]
    | some range => simp [hscope, (h.inWindow hi hholds hrange).2]

/-- A row of the condition passes the scan. -/
theorem holds_of_rowMeans {e : Expr Q} (h : Scannable p e) (hform : e.choosable db.symbolDict)
    (hrow : rowMeans (plainReading env db) p i e) : Holds env p i e := by
  obtain ⟨b, hb⟩ := scanRow_ok env i h.integers
  have hb' : scanRow (plainReading env db : Reading Q).env p i e = .ok b := hb
  have hsym : e.symbolForm db.symbolDict := by
    simp only [Expr.choosable, Bool.or_eq_true] at hform
    rcases hform with hform | hform | hform
    · simp [Expr.symbolForm, hform]
    · simp [Expr.symbolForm, (symbolIn_spec env i h.symbol hform).1]
    · rw [Expr.unlisted, Bool.and_eq_true] at hform
      simp [Expr.symbolForm, hform.1]
  rw [rowMeans_of_symbolForm hsym (.inr h.symbol) hb', Bool.and_eq_true] at hrow
  simp [Holds, hb, passes, hrow.2]

end

/-- The rows the executor answers from are the rows of the condition, each once. -/
theorem scannedRows_perm {env : Env} {db : Database} {table : String} {w : Option (Expr Q)}
    (hform : ∀ e, w = some e → e.choosable db.symbolDict) (htable : KnownTable db table)
    (hparts : ∀ p ∈ db.findPartitions table, ∀ e, w = some e → Scannable p e) :
    (scannedRows env db table w).Perm (tableRows env db table w) := by
  classical
  rw [perm_iff_count]
  rintro ⟨p, i⟩
  rw [scannedRows, tableRows, count_tagged, count_tagged]
  by_cases hp : p ∈ db.partitions
  swap
  · rw [count_eq_zero_of_not_mem fun h => hp (mem_of_mem_pruned h),
      count_eq_zero_of_not_mem fun h => hp ((db.findPartitions_sublist table).subset h), zero_mul,
      zero_mul]
  rw [count_prunedPartitions hp, db.findPartitions_eq_filter, count_filter_partitions hp]
  cases hin : db.inTable table p with
  | false => rw [scanCount_of_outside htable hin, zero_mul, if_neg Bool.false_ne_true, zero_mul]
  | true =>
    rw [if_pos rfl, one_mul]
    cases w with
    | none =>
      have hcount : scanCount db table (none : Option (Expr Q)) p = 1 := by
        simp [scanCount, hasWhereSymbol, hasWhereSymbolIn, extractTimeRange, hin]
      have hall : matchingRows (plainReading env db) (none : Option (Expr Q)) p =
          range p.numRows := filter_eq_self.mpr fun _ _ => rfl
      rw [hcount, one_mul, hall]
      rfl
    | some e =>
      have h : Scannable p e := hparts p (by simp [db.findPartitions_eq_filter, hp, hin]) e rfl
      have hform := hform e rfl
      rw [h.chosenRows_eq env, scanWhere, scanRows, matchingRows, (nodup_range.filter _).count,
        (nodup_range.filter _).count]
      simp only [mem_filter, mem_range]
      by_cases hholds : i < p.numRows ∧ passes (scanRow env p i e) = true
      · rw [scanCount_eq h hform htable hin hholds.1 hholds.2, if_pos hholds, mul_one]
        simp [hholds.1, whereMeans]
      · rw [if_neg hholds, mul_zero, if_neg]
        exact fun hrow => hholds ⟨hrow.1, holds_of_rowMeans h hform hrow.2⟩

theorem pricedSeven_scannable (key : PartitionKey) (prices : List Int)
    (h : 8 * prices.length < 2 ^ 32) :
    Scannable (priceRows key prices h) (pricedSeven : Expr (Query 0)) where
  truthful := ⟨nofun, nofun, nofun, nofun, nofun⟩
  integers := ⟨⟨rfl, rfl, by decide, by decide⟩, rfl, rfl, by decide, by decide⟩
  symbol := rfl
  words := nofun
  window := by simp [pricedSeven, conjuncts]
  tests := .inl ⟨_, mem_cons_self, rfl⟩

def twoSymbolsSession : Session where
  env := { now := 0 }
  db :=
    { registry := .singleton "trades" { columns := [⟨"price", .int64⟩], tableId := 1 }
      partitions := [priceRows ⟨1, 1, 0⟩ [7, 5, 7] (by decide), priceRows ⟨1, 2, 0⟩ [7] (by decide)]
      keys_nodup := by decide }

/-- `SELECT price FROM trades WHERE symbol = 1 AND price = 7`. -/
def selectSeven : SelectStmt (Query 0) := { selectPrice .eq with whereClause := some pricedSeven }

end Zepto.Sql
