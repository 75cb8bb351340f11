import Zepto.Sql.Meaning
import Zepto.Sql.PlainSelect
import Zepto.Storage.Attributes

/-!
# Index-driven selection against the scan

On a partition whose attributes say the truth (`Truthful`), the candidates of an indexed `WHERE` are
the rows of the conjuncts its lookups answer (`answered`), cut by the lookups that read something
else than their conditions speak of (`KeptAside`). The remaining test is skipped when every conjunct
is on an indexed column, answered or not. `collectAndIntersect_eq_iff` says when the selection is
that of `eval_where`.
-/

namespace Zepto.Sql

open List Zepto.Lib Zepto.Storage

variable {Q : Type}

/-! ## Partitions and conditions -/

/-- The attributes are on columns that are sorted or indexed as they are now, and the timestamps
ascend. -/
structure Truthful (p : Partition) : Prop where
  stored : ∀ col, p.isSorted col ∨ p.isGrouped col ∨ p.isParted col → (p.getColumn col).isSome
  sorted : ∀ col c, p.isSorted col → p.getColumn col = some c → c.type.isFloat = false →
    c.size = p.numRows ∧ c.Ascending p.mem
  grouped : ∀ col c, p.isGrouped col → p.getColumn col = some c → c.type.isFloat = false →
    ∀ v i, i ∈ p.groupedLookup col v ↔ i < p.numRows ∧ c.readI64 p.mem i = v
  parted : ∀ col c, p.isParted col → p.getColumn col = some c → c.type.isFloat = false →
    ∀ v i, ((p.partedRange col v).1 ≤ i ∧ i < (p.partedRange col v).2) ↔
      i < p.numRows ∧ c.readI64 p.mem i = v
  times : ∀ c, p.getColumn "timestamp" = some c → c.size = p.numRows ∧ c.Ascending p.mem

def IntegerColumn (p : Partition) (col : String) : Prop :=
  match p.getColumn col with
  | some c => c.type.isFloat = false
  | none => col = "symbol"

def OverIntegers (p : Partition) : Expr Q → Prop
  | .null => True
  | .and l r | .or l r => OverIntegers p l ∧ OverIntegers p r
  | .not l => OverIntegers p l
  | .compare c =>
    c.lhsExpr = none ∧ IntegerColumn p c.column ∧ int64Min ≤ c.value ∧ c.value ≤ int64Max
  | .between _ col lhs _ _ => lhs = none ∧ IntegerColumn p col
  | .inList _ col _ _ | .isNull _ col _ | .like _ col _ _ => IntegerColumn p col
  | .scalarSubquery .. | .inSubquery .. => False

def conjuncts : Expr Q → List (Expr Q)
  | .and l r => conjuncts l ++ conjuncts r
  | e => [e]

def Holds (env : Env) (p : Partition) (i : Nat) (e : Expr Q) : Prop :=
  passes (scanRow env p i e) = true

/-! ## What the lookups answer -/

/-- The lookups read the column as the scan does, by its words. The scan does not read a stored
column named `symbol`. -/
def readsWords (p : Partition) (col : String) : Bool :=
  col ≠ "symbol" && (p.getColumn col).any fun c => c.type.isWord

/-- The comparison narrows its column: `<>` does not, and the bounds of `> INT64_MAX` and `<
INT64_MIN` wrap around. -/
def Comparison.narrows (c : Comparison) : Bool :=
  match c.op with
  | .ne => false
  | .gt => c.value ≠ int64Max
  | .lt => c.value ≠ int64Min
  | _ => true

/-- A conjunct of `e` that a lookup answers. -/
def answered (p : Partition) (e : Expr Q) : Expr Q → Bool
  | .compare c =>
    !c.isFloat && c.column ≠ "symbol" &&
      ((p.isSorted c.column && readsWords p c.column && c.narrows) ||
        (c.op = .eq && (p.isGrouped c.column || p.isParted c.column)))
  | .between _ col _ lo hi =>
    readsWords p col &&
      (p.isSorted col || (col = "timestamp" && findTimeRange e = some (lo, hi)))
  | _ => false

/-- The time window is one of `timestamp`, and read in its words. -/
def windowsWords (p : Partition) (e : Expr Q) (lo hi : Int) : Prop :=
  readsWords p "timestamp" = true ∧ ∃ t lhs, .between t "timestamp" lhs lo hi ∈ conjuncts e

/-- A row is kept by the lookups that read aside of their conditions: in `timestamp` for a `BETWEEN`
on `recv_ts`, in words that span rows of a narrow column, and in a stored column named `symbol`. -/
structure KeptAside (p : Partition) (e : Expr Q) (i : Nat) : Prop where
  time : ∀ lo hi, findTimeRange e = some (lo, hi) → ¬windowsWords p e lo hi → TimeIndexed p lo hi i
  sorted : ∀ pred ∈ collectSorted p e [], readsWords p pred.col = false → SortedIndexed p pred i
  eq : ∀ pred ∈ collectEqs p e, pred.1 = "symbol" → EqIndexed p pred i

structure Left (env : Env) (p : Partition) (e : Expr Q) (i : Nat) : Prop where
  row : i < p.numRows
  aside : KeptAside p e i
  answers : ∀ x ∈ conjuncts e, answered p e x = true → Holds env p i x

/-- Every row of the condition is left by the lookups that read aside, and at the rows left, the
remaining test reads as the condition does. -/
structure IndexSafe (env : Env) (p : Partition) (e : Expr Q) : Prop where
  kept : ∀ i < p.numRows, Holds env p i e → KeptAside p e i
  dropped : allIndexed (indexedCols p (some e)) e = true → ∀ i, Left env p e i →
    ∀ x ∈ conjuncts e, answered p e x = false → Holds env p i x
  symbolIn : allIndexed (indexedCols p (some e)) e = false → testsSymbolIn e = true →
    (p.getColumn "symbol").isSome → ∀ i, Left env p e i →
      (passes (evalExprSingleRow env p i e) = true ↔ Holds env p i e)

/-! ## The tests never throw -/

section

variable {env : Env} {p : Partition} {i : Nat} {e : Expr Q}

theorem OverIntegers.onColumns (h : OverIntegers p e) : e.onColumns := by
  induction e with
  | and l r ihl ihr | or l r ihl ihr => simp [Expr.onColumns, ihl h.1, ihr h.2]
  | not l ih => exact ih h
  | compare c | between => simp [Expr.onColumns, h.1]
  | _ => rfl

theorem OverIntegers.noSubquery (h : OverIntegers p e) : e.noSubquery := by
  induction e with
  | and l r ihl ihr | or l r ihl ihr => simp [Expr.noSubquery, ihl h.1, ihr h.2]
  | not l ih => exact ih h
  | scalarSubquery | inSubquery => exact h.elim
  | _ => rfl

theorem scanRow_ok (env : Env) (i : Nat) (h : OverIntegers p e) : ∃ b, scanRow env p i e = .ok b :=
  scanRow_total env p i h.onColumns

section

variable (h : OverIntegers p e)

include h

theorem evalExprSingleRow_eq_scanRow
    (hsym : testsSymbolIn e = false ∨ p.getColumn "symbol" = none) :
    evalExprSingleRow env p i e = scanRow env p i e := by
  obtain ⟨b, hb⟩ := scanRow_ok env i h
  rw [hb, evalExprSingleRow_of_scanRow h.noSubquery hsym hb]

/-- A conjunction passes the scan where its conjuncts do. -/
theorem holds_iff_conjuncts : Holds env p i e ↔ ∀ x ∈ conjuncts e, Holds env p i x := by
  induction e with
  | and l r ihl ihr =>
    obtain ⟨a, ha⟩ := scanRow_ok env i h.1
    obtain ⟨b, hb⟩ := scanRow_ok env i h.2
    have hand : Holds env p i (.and l r) ↔ Holds env p i l ∧ Holds env p i r := by
      simp [Holds, scanRow, ha, hb, passes]
    rw [hand, ihl h.1, ihr h.2, conjuncts, forall_mem_append]
  | _ => simp [conjuncts]

theorem overIntegers_of_conjunct {x : Expr Q} (hx : x ∈ conjuncts e) : OverIntegers p x := by
  induction e with
  | and l r ihl ihr =>
    rcases mem_append.mp hx with hx | hx
    · exact ihl h.1 hx
    · exact ihr h.2 hx
  | _ => exact mem_singleton.mp hx ▸ h

end

end

/-! ## The bounds of the `s#` columns -/

/-- What a comparison asks of the value of its column once it is a bound. -/
def CompareOp.admits (op : CompareOp) (v x : Int) : Prop :=
  match op with
  | .ge => v ≤ x
  | .gt => wrap64 (v + 1) ≤ x
  | .le => x ≤ v
  | .lt => x ≤ wrap64 (v - 1)
  | .eq => v ≤ x ∧ x ≤ v
  | .ne => True

section

/- The columns `good` have the 64-bit values `val` in some row. -/
variable {p : Partition} {val : String → Int} {good : String → Prop}

def InBounds (val : String → Int) (b : SortedRangePred) : Prop :=
  b.lo ≤ val b.col ∧ val b.col ≤ b.hi

/-- What a conjunct asks of the values of the good `s#` columns. -/
def Admits (p : Partition) (val : String → Int) (good : String → Prop) : Expr Q → Prop
  | .between _ col _ lo hi => p.isSorted col = true → good col → lo ≤ val col ∧ val col ≤ hi
  | .compare c => c.isFloat = false ∧ p.isSorted c.column = true → good c.column →
      c.op.admits c.value (val c.column)
  | _ => True

theorem inBounds_bound (op : CompareOp) (v : Int) (b : SortedRangePred) :
    InBounds val (op.bound v b) ↔ InBounds val b ∧ op.admits v (val b.col) := by
  cases op with
  | ne => simp [CompareOp.bound, CompareOp.admits]
  | _ =>
    simp only [InBounds, CompareOp.bound, CompareOp.admits]
    omega

theorem bound_col (op : CompareOp) (v : Int) (b : SortedRangePred) :
    (op.bound v b).col = b.col := by
  cases op <;> rfl

theorem forall_boundColumn {col : String} {f : SortedRangePred → SortedRangePred} {P : Prop}
    (hcol : ∀ b, (f b).col = b.col)
    (hf : ∀ b, b.col = col → (InBounds val (f b) ↔ InBounds val b ∧ P))
    (hinit : good col → InBounds val { col }) (bs : List SortedRangePred) :
    (∀ b ∈ boundColumn col f bs, good b.col → InBounds val b) ↔
      (∀ b ∈ bs, good b.col → InBounds val b) ∧ (good col → P) := by
  induction bs with
  | nil =>
    simp only [boundColumn, forall_mem_singleton, hcol, hf { col } rfl, not_mem_nil,
      false_implies, implies_true, true_and]
    exact forall_congr' fun hg => and_iff_right (hinit hg)
  | cons b bs ih =>
    by_cases hb : b.col = col
    · rw [boundColumn, if_pos hb]
      simp only [forall_mem_cons, hcol, hf b hb, hb]
      tauto
    · rw [boundColumn, if_neg hb]
      simp only [forall_mem_cons]
      tauto

theorem forall_collectSorted (p : Partition)
    (hval : ∀ col, good col → int64Min ≤ val col ∧ val col ≤ int64Max) (e : Expr Q)
    (bs : List SortedRangePred) :
    (∀ b ∈ collectSorted p e bs, good b.col → InBounds val b) ↔
      (∀ b ∈ bs, good b.col → InBounds val b) ∧ ∀ x ∈ conjuncts e, Admits p val good x := by
  induction e generalizing bs with
  | and l r ihl ihr =>
    rw [collectSorted, ihr, ihl, conjuncts, forall_mem_append, and_assoc]
  | between _ col _ lo hi =>
    simp only [collectSorted, conjuncts, forall_mem_singleton]
    by_cases hs : p.isSorted col
    · have hbound := forall_boundColumn (P := lo ≤ val col ∧ val col ≤ hi)
        (f := fun b => { b with lo := max b.lo lo, hi := min b.hi hi }) (fun _ => rfl)
        (by rintro b rfl; simp only [InBounds]; omega) (hval col) bs
      rw [if_pos hs, hbound]
      exact and_congr_right fun _ => ⟨fun h _ => h, fun h => h hs⟩
    · rw [if_neg hs]
      exact (and_iff_left fun h => absurd h hs).symm
  | compare c =>
    simp only [collectSorted, conjuncts, forall_mem_singleton]
    by_cases hs : c.isFloat = false ∧ p.isSorted c.column
    · rw [if_pos hs, forall_boundColumn (P := c.op.admits c.value (val c.column))
        (bound_col c.op c.value) _ (hval c.column)]
      · exact and_congr_right fun _ => ⟨fun h _ => h, fun h => h hs⟩
      · intro b hb
        rw [inBounds_bound, hb]
    · rw [if_neg hs]
      exact (and_iff_left fun h => absurd h hs).symm
  | _ => simp [collectSorted, conjuncts, Admits]

def SortedIntegers (p : Partition) (bs : List SortedRangePred) : Prop :=
  ∀ b ∈ bs, p.isSorted b.col ∧ IntegerColumn p b.col

theorem SortedIntegers.collectSorted {e : Expr Q} {bs : List SortedRangePred}
    (hbs : SortedIntegers p bs) (he : OverIntegers p e) :
    SortedIntegers p (collectSorted p e bs) := by
  have hbound : ∀ {col : String} {f : SortedRangePred → SortedRangePred}
      {bs : List SortedRangePred}, (∀ b, (f b).col = b.col) →
      p.isSorted col ∧ IntegerColumn p col → SortedIntegers p bs →
      SortedIntegers p (boundColumn col f bs) := by
    unfold SortedIntegers
    intro col f bs hcol hR hbs
    induction bs with
    | nil => simpa [boundColumn, hcol] using hR
    | cons b bs ih =>
      rw [forall_mem_cons] at hbs
      rw [boundColumn]
      split
      · simpa [hcol] using hbs
      · simpa using ⟨hbs.1, ih hbs.2⟩
  induction e generalizing bs with
  | and l r ihl ihr => exact ihr (ihl hbs he.1) he.2
  | between t col lhs lo hi =>
    rw [Sql.collectSorted]
    split
    · exact hbound (fun _ => rfl) ⟨‹_›, he.2⟩ hbs
    · exact hbs
  | compare c =>
    rw [Sql.collectSorted]
    split
    next hs =>
      exact hbound (bound_col _ _) ⟨hs.2, he.2.1⟩ hbs
    · exact hbs
  | _ => exact hbs

end

theorem mem_collectEqs {p : Partition} {e : Expr Q} {pred : String × Int} :
    pred ∈ collectEqs p e ↔ ∃ c, .compare c ∈ conjuncts e ∧
      (c.op = .eq ∧ c.isFloat = false ∧ (p.isGrouped c.column || p.isParted c.column)) ∧
      pred = (c.column, c.value) := by
  induction e with
  | and l r ihl ihr =>
    simp [collectEqs, conjuncts, ihl, ihr, or_and_right, exists_or]
  | compare c =>
    rw [collectEqs]
    split_ifs with h
    · simp only [mem_singleton, conjuncts, Expr.compare.injEq, exists_eq_left]
      exact (and_iff_right h).symm
    simp only [not_mem_nil, conjuncts, mem_singleton, Expr.compare.injEq, exists_eq_left, false_iff]
    exact fun hc => h hc.1
  | _ => simp [collectEqs, conjuncts]

/-! ## The rows the lookups leave -/

def rowValue (p : Partition) (i : Nat) (col : String) : Int :=
  match p.getColumn col with
  | some c => c.readI64 p.mem i
  | none => 0

theorem wrap64_of_range {z : Int} (hlo : int64Min ≤ z) (hhi : z ≤ int64Max) : wrap64 z = z :=
  signed_unsigned64 hlo hhi

theorem admits_iff_test {c : Comparison} {x : Int} (hn : c.narrows)
    (hlo : int64Min ≤ c.value) (hhi : c.value ≤ int64Max) :
    c.op.admits c.value x ↔ c.op.test x c.value := by
  unfold Comparison.narrows at hn
  cases hop : c.op with
  | ne => simp [hop] at hn
  | gt | lt =>
    simp only [hop, decide_eq_true_eq] at hn
    rw [CompareOp.admits, wrap64_of_range (by omega) (by omega), CompareOp.test, decide_eq_true_eq]
    omega
  | eq =>
    simp only [CompareOp.admits, CompareOp.test, decide_eq_true_eq]
    omega
  | _ => simp [CompareOp.admits, CompareOp.test]

theorem admits_of_not_narrows {c : Comparison} {x : Int} (hn : c.narrows = false)
    (hlo : int64Min ≤ x) (hhi : x ≤ int64Max) : c.op.admits c.value x := by
  unfold Comparison.narrows at hn
  cases hop : c.op with
  | ne => exact trivial
  | gt =>
    simp only [hop, decide_eq_false_iff_not, not_not] at hn
    rw [hn]
    exact hlo
  | lt =>
    simp only [hop, decide_eq_false_iff_not, not_not] at hn
    rw [hn]
    exact hhi
  | _ => simp [hop] at hn

section

variable {env : Env} {p : Partition} {i : Nat} {e : Expr Q} {col : String}

theorem IntegerColumn.stored (h : IntegerColumn p col) (hcol : col ≠ "symbol") :
    ∃ c, p.getColumn col = some c ∧ c.type.isFloat = false := by
  unfold IntegerColumn at h
  cases hc : p.getColumn col with
  | none =>
    rw [hc] at h
    exact absurd h hcol
  | some c =>
    rw [hc] at h
    exact ⟨c, rfl, h⟩

theorem holds_compare {c : Comparison} (h : OverIntegers p (.compare c : Expr Q))
    (hcol : c.column ≠ "symbol") (hfloat : c.isFloat = false) :
    Holds env p i (.compare c : Expr Q) ↔ c.op.test (rowValue p i c.column) c.value := by
  obtain ⟨hlhs, hint, -⟩ := h
  obtain ⟨cv, hcv, hty⟩ := hint.stored hcol
  simp [Holds, scanRow, compareTest, rowValue, hlhs, hcv, hfloat, hty, if_neg hcol, passes]

theorem holds_between {t : String} {lhs : Option ArithExpr} {lo hi : Int}
    (h : OverIntegers p (.between t col lhs lo hi : Expr Q)) (hcol : col ≠ "symbol") :
    Holds env p i (.between t col lhs lo hi : Expr Q) ↔
      lo ≤ rowValue p i col ∧ rowValue p i col ≤ hi := by
  obtain ⟨rfl, hint⟩ := h
  obtain ⟨cv, hcv, hty⟩ := hint.stored hcol
  simp [Holds, scanRow, betweenTest, rowValue, hcv, hty, if_neg hcol, passes]

theorem column_of_readsWords (h : readsWords p col) :
    col ≠ "symbol" ∧ ∃ c, p.getColumn col = some c ∧ c.type.isWord := by
  unfold readsWords at h
  rw [Bool.and_eq_true, decide_eq_true_eq, Option.any_eq_true] at h
  exact h

theorem rowValue_range (h : readsWords p col) :
    int64Min ≤ rowValue p i col ∧ rowValue p i col ≤ int64Max := by
  obtain ⟨-, c, hc, hword⟩ := column_of_readsWords h
  simp only [rowValue, hc]
  exact c.readI64_range (ColumnType.isFloat_of_isWord hword) p.mem i

section

variable (hp : Truthful p)

include hp

/-- The range of an `s#` column of words is the rows with values in the bounds. -/
theorem Truthful.sortedIndexed_iff {pred : SortedRangePred}
    (hs : p.isSorted pred.col) (hw : readsWords p pred.col) :
    SortedIndexed p pred i ↔ i < p.numRows ∧ InBounds (rowValue p i) pred := by
  obtain ⟨-, c, hc, hword⟩ := column_of_readsWords hw
  obtain ⟨hsize, hasc⟩ := hp.sorted _ c hs hc (ColumnType.isFloat_of_isWord hword)
  unfold SortedIndexed InBounds
  rw [Partition.sortedRange_iff hc hword hasc, hsize]
  simp [rowValue, hc]

/-- An index lists the rows of a value. -/
theorem Truthful.eqIndexed_iff {v : Int} (hint : IntegerColumn p col)
    (hcol : col ≠ "symbol") (hidx : (p.isGrouped col || p.isParted col)) :
    EqIndexed p (col, v) i ↔ i < p.numRows ∧ rowValue p i col = v := by
  obtain ⟨c, hc, hty⟩ := hint.stored hcol
  unfold EqIndexed
  simp only [rowValue, hc]
  by_cases hg : p.isGrouped col
  · rw [if_pos hg]
    exact hp.grouped col c hg hc hty v i
  · rw [if_neg hg]
    refine hp.parted col c ?_ hc hty v i
    simpa [hg] using hidx

/-- The rows in the time window are those with timestamps there, where timestamps are words. -/
theorem Truthful.timeIndexed_iff {lo hi : Int} (hw : readsWords p "timestamp") :
    TimeIndexed p lo hi i ↔ i < p.numRows ∧
      lo ≤ rowValue p i "timestamp" ∧ rowValue p i "timestamp" ≤ hi := by
  obtain ⟨-, c, hc, hword⟩ := column_of_readsWords hw
  obtain ⟨hsize, hasc⟩ := hp.times c hc
  have hrange : (_ ≤ i ∧ i < (p.sortedRange _ lo hi).2) ↔ _ :=
    Partition.sortedRange_iff hc hword hasc
  have hvalue : rowValue p i "timestamp" = c.readI64 p.mem i := by simp only [rowValue, hc]
  rw [hvalue, ← hsize]
  refine ⟨fun h => hrange.mp h.2, fun h => ⟨?_, hrange.mpr h⟩⟩
  have hfits := p.fits c (Partition.getColumn_mem hc)
  have hpos : c.size ≠ 0 := by omega
  -- The window meets the first and the last timestamp, with the row's own between them.
  have hfirst := hasc 0 i (Nat.zero_le i) h.1
  have hlast := hasc i (c.size - 1) (by omega) (by omega)
  simp only [Partition.overlapsTimeRange, hc, if_neg hpos, Bool.and_eq_true, decide_eq_true_eq,
    ColumnVector.rawI64_eq_readI64 hword hfits (pos_of_ne_zero hpos),
    ColumnVector.rawI64_eq_readI64 hword hfits (show c.size - 1 < c.size by omega)]
  exact ⟨hfirst.trans h.2.2, h.2.1.trans hlast⟩

theorem Truthful.row_of_candidate (he : OverIntegers p e)
    (hidx : ¬Unindexed p (some e)) (h : Candidate p (some e) i) : i < p.numRows := by
  -- A column that is indexed and named by the condition is a stored integer column.
  have hstored : ∀ {col}, IntegerColumn p col → p.isSorted col ∨ p.isGrouped col ∨ p.isParted col →
      ∃ c, p.getColumn col = some c ∧ c.type.isFloat = false := by
    intro col hint hattr
    obtain ⟨c, hc⟩ := Option.isSome_iff_exists.mp (hp.stored col hattr)
    simp only [IntegerColumn, hc] at hint
    exact ⟨c, hc, hint⟩
  cases ht : findTimeRange e with
  | some range =>
    have htime := h.time range.1 range.2 ht
    cases hc : p.getColumn "timestamp" with
    | none => simp [TimeIndexed, Partition.overlapsTimeRange, hc] at htime
    | some c =>
      rw [← (hp.times c hc).1]
      exact Partition.lt_size_of_lt_sortedRange hc htime.2.2
  | none =>
    by_cases hs : sortedPreds p (some e) = []
    · have heq : eqPreds p (some e) ≠ [] := fun heq => hidx ⟨ht, hs, heq⟩
      obtain ⟨pred, hpred⟩ := exists_mem_of_ne_nil _ heq
      have hin := h.eq pred hpred
      obtain ⟨c, hc, ⟨-, -, hattr⟩, rfl⟩ := mem_collectEqs.mp hpred
      have hint := (overIntegers_of_conjunct he hc).2.1
      rw [Bool.or_eq_true] at hattr
      obtain ⟨cv, hcv, hty⟩ := hstored hint (.inr hattr)
      unfold EqIndexed at hin
      split at hin
      · exact ((hp.grouped _ cv ‹_› hcv hty _ _).mp hin).1
      next hg =>
        exact ((hp.parted _ cv (hattr.resolve_left hg) hcv hty _ _).mp hin).1
    · obtain ⟨pred, hpred⟩ := exists_mem_of_ne_nil _ hs
      have hcol := SortedIntegers.collectSorted (forall_mem_nil _) he pred hpred
      obtain ⟨c, hc, hty⟩ := hstored hcol.2 (.inl hcol.1)
      rw [← (hp.sorted _ c hcol.1 hc hty).1]
      exact Partition.lt_size_of_lt_sortedRange hc (h.sorted pred hpred).2

end

/-- The good columns of a lookup in the bounds of the `s#` columns. -/
def LooksUp (p : Partition) (col : String) : Prop :=
  p.isSorted col = true ∧ readsWords p col = true

/-- A row is in the ranges of the `s#` columns of words when their conjuncts hold. -/
theorem admits_iff (env : Env) (he : OverIntegers p e) {x : Expr Q} (hx : x ∈ conjuncts e) :
    Admits p (rowValue p i) (LooksUp p) x ↔ match x with
      | .between t col lhs lo hi =>
          LooksUp p col → Holds env p i (.between t col lhs lo hi : Expr Q)
      | .compare c => LooksUp p c.column → c.isFloat = false → c.narrows →
          Holds env p i (.compare c : Expr Q)
      | _ => True := by
  have hover := overIntegers_of_conjunct he hx
  cases x with
  | between t col lhs lo hi =>
    constructor
    · intro h hl
      exact (holds_between hover (column_of_readsWords hl.2).1).mpr (h hl.1 hl)
    · intro h _ hl
      exact (holds_between hover (column_of_readsWords hl.2).1).mp (h hl)
  | compare c =>
    constructor
    · intro h hl hfloat hn
      rw [holds_compare hover (column_of_readsWords hl.2).1 hfloat,
        ← admits_iff_test hn hover.2.2.1 hover.2.2.2]
      exact h ⟨hfloat, hl.1⟩ hl
    intro h hs hl
    by_cases hn : c.narrows
    · rw [admits_iff_test hn hover.2.2.1 hover.2.2.2,
        ← holds_compare hover (column_of_readsWords hl.2).1 hs.1]
      exact h hl hs.1 hn
    · rw [Bool.not_eq_true] at hn
      have hrange := rowValue_range (i := i) hl.2
      exact admits_of_not_narrows hn hrange.1 hrange.2
  | _ => exact .rfl

/-- On a truthful partition the candidates are the rows the lookups leave. -/
theorem Truthful.candidate_iff (env : Env) (hp : Truthful p) (he : OverIntegers p e)
    (hidx : ¬Unindexed p (some e)) : Candidate p (some e) i ↔ Left env p e i := by
  have hrange : ∀ col, LooksUp p col →
      int64Min ≤ rowValue p i col ∧ rowValue p i col ≤ int64Max := fun col h => rowValue_range h.2
  have hbounds := forall_collectSorted p hrange e []
  simp only [not_mem_nil, false_implies, implies_true, true_and] at hbounds
  constructor
  · intro h
    refine ⟨hp.row_of_candidate he hidx h, ⟨fun lo hi hrange _ => h.time lo hi hrange,
      fun pred hpred _ => h.sorted pred hpred, fun pred hpred _ => h.eq pred hpred⟩, ?_⟩
    intro x hx hans
    have hadmits := hbounds.mp (fun pred hpred hl =>
      ((hp.sortedIndexed_iff hl.1 hl.2).mp (h.sorted pred hpred)).2) x hx
    rw [admits_iff env he hx] at hadmits
    have hover := overIntegers_of_conjunct he hx
    cases x with
    | compare c =>
      simp only [answered, Bool.and_eq_true, Bool.or_eq_true, Bool.not_eq_true',
        decide_eq_true_eq] at hans
      obtain ⟨⟨hfloat, hcol⟩, ⟨⟨hs, hw⟩, hn⟩ | ⟨hop, hattr⟩⟩ := hans
      · exact hadmits ⟨hs, hw⟩ hfloat hn
      have hattr' : (p.isGrouped c.column || p.isParted c.column) := by
        rwa [Bool.or_eq_true]
      have hin := h.eq (c.column, c.value) (mem_collectEqs.mpr ⟨c, hx, ⟨hop, hfloat, hattr'⟩, rfl⟩)
      rw [hp.eqIndexed_iff hover.2.1 hcol hattr'] at hin
      rw [holds_compare hover hcol hfloat, hop]
      exact decide_eq_true hin.2
    | between t col lhs lo hi =>
      simp only [answered, Bool.and_eq_true, Bool.or_eq_true, decide_eq_true_eq] at hans
      obtain ⟨hw, hs | ⟨rfl, hrange⟩⟩ := hans
      · exact hadmits ⟨hs, hw⟩
      · rw [holds_between hover (by decide)]
        exact ((hp.timeIndexed_iff hw).mp (h.time lo hi hrange)).2
    | _ => cases hans
  · intro h
    refine ⟨fun hu => absurd hu hidx, fun lo hi hrange => ?_, fun pred hpred => ?_,
      fun pred hpred => ?_⟩
    · by_cases hwords : windowsWords p e lo hi
      · obtain ⟨hw, t, lhs, hx⟩ := hwords
        have hrange' : findTimeRange e = some (lo, hi) := hrange
        have hholds := h.answers _ hx (by simp [answered, hw, hrange'])
        rw [holds_between (overIntegers_of_conjunct he hx) (by decide)] at hholds
        exact (hp.timeIndexed_iff hw).mpr ⟨h.row, hholds⟩
      · exact h.aside.time lo hi hrange hwords
    · by_cases hw : readsWords p pred.col
      · have hs := (SortedIntegers.collectSorted (forall_mem_nil _) he pred hpred).1
        refine (hp.sortedIndexed_iff hs hw).mpr ⟨h.row, hbounds.mpr ?_ pred hpred ⟨hs, hw⟩⟩
        intro x hx
        rw [admits_iff env he hx]
        cases x with
        | between t col lhs lo hi =>
          intro hl
          exact h.answers _ hx (by simp [answered, hl.1, hl.2])
        | compare c =>
          intro hl hfloat hn
          have hcol := (column_of_readsWords hl.2).1
          exact h.answers _ hx (by simp [answered, hl.1, hl.2, hfloat, hn, hcol])
        | _ => trivial
      · exact h.aside.sorted pred hpred (by simpa using hw)
    · by_cases hsym : pred.1 = "symbol"
      · exact h.aside.eq pred hpred hsym
      · obtain ⟨c, hx, ⟨hop, hfloat, hattr⟩, rfl⟩ := mem_collectEqs.mp hpred
        have hover := overIntegers_of_conjunct he hx
        have hans : answered p e (.compare c) := by
          simp only [answered, hfloat, hop, hattr, decide_true, Bool.and_true, Bool.or_true]
          exact decide_eq_true hsym
        have hholds := h.answers _ hx hans
        rw [holds_compare hover hsym hfloat, hop] at hholds
        exact (hp.eqIndexed_iff hover.2.1 hsym hattr).mpr ⟨h.row, of_decide_eq_true hholds⟩

end

/-! ## Equality with the scan -/

section

variable {env : Env} {p : Partition}

theorem collectAndIntersect_of_unindexed {w : Option (Expr Q)} (hu : Unindexed p w) :
    (collectAndIntersect env p w).map Prod.fst = evalWhere env p p.numRows w := by
  have hplan : indexPlan p w = none := if_pos hu
  unfold collectAndIntersect
  rw [hplan]
  cases evalWhere env p p.numRows w <;> rfl

theorem ascending_eq_iff {l l' : List Nat} (hl : l.Pairwise (· < ·)) (hl' : l'.Pairwise (· < ·)) :
    l = l' ↔ ∀ i, i ∈ l ↔ i ∈ l' := by
  constructor
  · rintro rfl i
    exact .rfl
  · exact hl.eq_of_mem_iff hl'

/-- The rows the indexed selection has of a condition. -/
theorem Truthful.mem_selection_iff (hp : Truthful p) {e : Expr Q} (he : OverIntegers p e)
    (hidx : ¬Unindexed p (some e)) {l : List Nat} {n : Nat}
    (h : collectAndIntersect env p (some e) = .ok (l, n)) (i : Nat) :
    i ∈ l ↔ Left env p e i ∧ (allIndexed (indexedCols p (some e)) e ∨
      passes (evalExprSingleRow env p i e)) := by
  rw [(collectAndIntersect_spec h).2 i, hp.candidate_iff env he hidx]
  unfold remainingTest
  simp only [hidx]
  by_cases hall : allIndexed (indexedCols p (some e)) e
  · simp [hall, passes]
  · simp [hall]

/-- With an index, the same rows are selected just when the selection is safe. -/
theorem same_rows_iff {e : Expr Q} (he : OverIntegers p e) :
    (∀ i, (Left env p e i ∧ (allIndexed (indexedCols p (some e)) e ∨
        passes (evalExprSingleRow env p i e))) ↔ i < p.numRows ∧ Holds env p i e) ↔
      IndexSafe env p e := by
  -- A row of the condition that is kept aside is left by all lookups.
  have hleft : ∀ {i}, i < p.numRows → Holds env p i e → KeptAside p e i → Left env p e i :=
    fun hi h haside => ⟨hi, haside, fun x hx _ => (holds_iff_conjuncts he).mp h x hx⟩
  constructor
  · intro h
    refine ⟨fun i hi hholds => ((h i).mpr ⟨hi, hholds⟩).1.aside, fun hall i hl x hx _ => ?_,
      fun hall _ _ i hl => ?_⟩
    · have hholds := ((h i).mp ⟨hl, .inl hall⟩).2
      exact (holds_iff_conjuncts he).mp hholds x hx
    constructor
    · intro htest
      exact ((h i).mp ⟨hl, .inr htest⟩).2
    · intro hholds
      exact ((h i).mpr ⟨hl.row, hholds⟩).2.resolve_left (by simp [hall])
  · intro h i
    have hrow : ∀ (hl : Left env p e i), allIndexed (indexedCols p (some e)) e = false →
        (passes (evalExprSingleRow env p i e) ↔ Holds env p i e) := by
      intro hl hall
      by_cases hsym : testsSymbolIn e ∧ (p.getColumn "symbol").isSome
      · exact h.symbolIn hall hsym.1 hsym.2 i hl
      have hsame : evalExprSingleRow env p i e = scanRow env p i e := by
        apply evalExprSingleRow_eq_scanRow he
        rw [not_and_or] at hsym
        simpa using hsym
      rw [hsame, Holds]
    cases hall : allIndexed (indexedCols p (some e)) e with
    | true =>
      simp only [true_or, and_true]
      constructor
      · intro hl
        refine ⟨hl.row, (holds_iff_conjuncts he).mpr fun x hx => ?_⟩
        by_cases hans : answered p e x
        · exact hl.answers x hx hans
        · exact h.dropped hall i hl x hx (by simpa using hans)
      · rintro ⟨hi, hholds⟩
        exact hleft hi hholds (h.kept i hi hholds)
    | false =>
      simp only [Bool.false_eq_true, false_or]
      constructor
      · rintro ⟨hl, htest⟩
        exact ⟨hl.row, (hrow hl hall).mp htest⟩
      · rintro ⟨hi, hholds⟩
        have hl := hleft hi hholds (h.kept i hi hholds)
        exact ⟨hl, (hrow hl hall).mpr hholds⟩

/-- With an index, the selection is that of the scan just when it is safe. -/
theorem Truthful.selection_eq_iff (hp : Truthful p) {e : Expr Q} (he : OverIntegers p e)
    (hidx : ¬Unindexed p (some e)) :
    (collectAndIntersect env p (some e)).map Prod.fst = .ok (scanWhere env p (some e)) ↔
      IndexSafe env p e := by
  obtain ⟨l, n, hl⟩ := collectAndIntersect_total env p (w := some e)
    (by rintro _ ⟨⟩ i; exact scanRow_ok env i he)
  have hmem : ∀ i, i ∈ scanWhere env p (some e) ↔ i < p.numRows ∧ Holds env p i e := by
    simp [scanWhere, scanRows, Holds]
  rw [hl]
  simp only [Except.map, Except.ok.injEq]
  rw [ascending_eq_iff (collectAndIntersect_spec hl).1
    (pairwise_lt_range.sublist scanWhere_sublist)]
  simp only [hp.mem_selection_iff he hidx hl, hmem]
  exact same_rows_iff he

theorem evalWhere_of_overIntegers {e : Expr Q} (he : OverIntegers p e) :
    evalWhere env p p.numRows (some e) = .ok (scanWhere env p (some e)) := by
  refine evalWhere_eq_ok.mpr ⟨?_, rfl⟩
  rintro _ ⟨⟩ i -
  exact scanRow_ok env i he

/-- On truthful attributes, an index-driven selection over integer columns is that of a full scan
just when no index applies or the lookups are safe for the condition. -/
theorem collectAndIntersect_eq_iff (env : Env) (p : Partition) (w : Option (Expr Q))
    (hp : Truthful p) (hw : ∀ e, w = some e → OverIntegers p e) :
    (collectAndIntersect env p w).map Prod.fst = evalWhere env p p.numRows w ↔
      Unindexed p w ∨ ∀ e, w = some e → IndexSafe env p e := by
  by_cases hidx : Unindexed p w
  · exact iff_of_true (collectAndIntersect_of_unindexed hidx) (.inl hidx)
  cases w with
  | none => exact absurd ⟨rfl, rfl, rfl⟩ hidx
  | some e =>
    have he := hw e rfl
    rw [evalWhere_of_overIntegers he, hp.selection_eq_iff he hidx, or_iff_right hidx]
    exact ⟨fun h _ heq => by cases heq; exact h, fun h => h e rfl⟩

end

/-- Rows with the `s#` attribute on their price. -/
def sortedPrices (prices : List Int) (h : 8 * prices.length < 2 ^ 32) : Partition :=
  (priceRows ⟨1, 1, 0⟩ prices h).setSorted "price"

theorem sortedPrices_truthful {prices : List Int} (h : 8 * prices.length < 2 ^ 32)
    (hasc : ∀ c, (sortedPrices prices h).getColumn "price" = some c →
      c.Ascending (sortedPrices prices h).mem) : Truthful (sortedPrices prices h) := by
  have hcol : ∀ col, (sortedPrices prices h).isSorted col ↔ col = "price" := by
    simp [sortedPrices, Partition.isSorted, Partition.setSorted, priceRows]
  have hnone : ∀ col, (sortedPrices prices h).isGrouped col = false ∧
      (sortedPrices prices h).isParted col = false := fun _ => ⟨rfl, rfl⟩
  refine ⟨?_, ?_, by rintro col c ⟨⟩, by rintro col c ⟨⟩, by rintro c ⟨⟩⟩
  · intro col hattr
    simp only [hnone, hcol, Bool.false_eq_true, or_false] at hattr
    subst hattr
    rfl
  · intro col c hs hc _
    obtain rfl := (hcol col).mp hs
    refine ⟨?_, hasc c hc⟩
    cases hc
    rfl

def sortedPrice : Partition := onePrice.setSorted "price"

def fourSorted : Partition := sortedPrices [3, 5, 5, 8] (by decide)

/-- `WHERE price op v`. -/
def priceIs (op : CompareOp) (v : Int) : Expr Unit := .compare { column := "price", op, value := v }

/-- `price = 5` is answered by the range lookup. -/
theorem collectAndIntersect_price_eq :
    Truthful fourSorted ∧ OverIntegers fourSorted (priceIs .eq 5) ∧
      (collectAndIntersect { now := 0 } fourSorted (some (priceIs .eq 5))).map Prod.fst =
        .ok [1, 2] ∧
      (Unindexed fourSorted (some (priceIs .eq 5)) ∨ ∀ e, some (priceIs .eq 5) = some e →
        IndexSafe { now := 0 } fourSorted e) := by
  have hp : Truthful fourSorted := by
    refine sortedPrices_truthful _ ?_
    rintro _ ⟨⟩ i j hij hj
    exact (by decide +kernel : ∀ j < 4, ∀ i ≤ j,
      (⟨"price", .int64, some 0, 4, 4⟩ : ColumnVector).readI64
      fourSorted.mem i ≤ (⟨"price", .int64, some 0, 4, 4⟩ : ColumnVector).readI64 fourSorted.mem j)
      j hj i hij
  have hw : OverIntegers fourSorted (priceIs .eq 5) :=
    ⟨rfl, rfl, (by decide : int64Min ≤ 5), (by decide : 5 ≤ int64Max)⟩
  refine ⟨hp, hw, by decide +kernel,
    (collectAndIntersect_eq_iff _ _ _ hp ?_).mp (by decide +kernel)⟩
  rintro _ ⟨⟩
  exact hw

/-- `price <> 0` bounds nothing, but its test is skipped as indexed. -/
theorem collectAndIntersect_price_ne :
    Truthful sortedPrice ∧ OverIntegers sortedPrice (priceIs .ne 0) ∧
      (collectAndIntersect { now := 0 } sortedPrice (some (priceIs .ne 0))).map Prod.fst = .ok [0] ∧
      evalWhere { now := 0 } sortedPrice sortedPrice.numRows (some (priceIs .ne 0)) = .ok [] := by
  refine ⟨sortedPrices_truthful _ ?_,
    ⟨rfl, rfl, (by decide : int64Min ≤ 0), (by decide : 0 ≤ int64Max)⟩, rfl, rfl⟩
  rintro _ ⟨⟩ i j hij hj
  obtain rfl : j = 0 := Nat.lt_one_iff.mp hj
  obtain rfl : i = 0 := Nat.le_zero.mp hij
  exact le_refl _

end Zepto.Sql
