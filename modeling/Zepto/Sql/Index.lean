import Zepto.Sql.Prune

/-!
# Index-driven row selection

`collectAndIntersect` selects the rows of one partition. Conditions along the conjunctions of the
`WHERE` that an index can answer (the time window, ranges on `s#` columns, equalities on `g#` and
`p#` columns) narrow an `IndexResult`; the remaining test is made on its rows only, and not at all
when every condition is on an indexed column. Otherwise the partition is scanned.
-/

namespace Zepto.Sql

open List Zepto.Lib Zepto.Storage

variable {Q : Type}

/-- `SIZE_MAX`. -/
def sizeMax : Nat := 18446744073709551615

/-- A row range and, once a set was intersected, the rows left in it. -/
structure IndexResult where
  rangeBegin : Nat := 0
  rangeEnd : Nat := sizeMax
  rowSet : Option (List Nat) := none

namespace IndexResult

/-- The row number lies in the range, whose bounds are cut to 32 bits first. -/
def inRange (r : IndexResult) (idx : Nat) : Bool :=
  idx ≥ r.rangeBegin % 2 ^ 32 && idx < r.rangeEnd % 2 ^ 32

def setRange (r : IndexResult) (b e : Nat) : IndexResult :=
  { r with rangeBegin := b, rangeEnd := e }

def intersectRange (r : IndexResult) (b e : Nat) : IndexResult :=
  let r := { r with rangeBegin := max r.rangeBegin b, rangeEnd := min r.rangeEnd e }
  { r with rowSet := r.rowSet.map fun s => s.filter r.inRange }

/-- The first set is cut to the range; a later one is scanned against the smaller. -/
def intersectSet (r : IndexResult) (s : List Nat) : IndexResult :=
  match r.rowSet with
  | none => { r with rowSet := some (s.filter r.inRange) }
  | some t =>
    if t.length ≤ s.length then { r with rowSet := some (s.filter fun i => i ∈ t) }
    else { r with rowSet := some (t.filter fun i => i ∈ s) }

/-- The rows; a range that was never bounded above is empty. -/
def materialize (r : IndexResult) : List Nat :=
  match r.rowSet with
  | some s => s
  | none =>
    let e := if r.rangeEnd = sizeMax then r.rangeBegin else r.rangeEnd
    range' r.rangeBegin (e - r.rangeBegin)

end IndexResult

/-- Bounds collected for an `s#` column. -/
structure SortedRangePred where
  col : String
  lo : Int := int64Min
  hi : Int := int64Max

/-- Narrow the bounds of `col`, entering it first if it is new. -/
def boundColumn (col : String) (f : SortedRangePred → SortedRangePred) :
    List SortedRangePred → List SortedRangePred
  | [] => [f { col }]
  | b :: bs => if b.col = col then f b :: bs else b :: boundColumn col f bs

/-- The bounds a comparison puts on its column; `<>` puts none. -/
def CompareOp.bound (op : CompareOp) (v : Int) (b : SortedRangePred) : SortedRangePred :=
  match op with
  | .ge => { b with lo := max b.lo v }
  | .gt => { b with lo := max b.lo (wrap64 (v + 1)) }
  | .le => { b with hi := min b.hi v }
  | .lt => { b with hi := min b.hi (wrap64 (v - 1)) }
  | .eq => { b with lo := max b.lo v, hi := min b.hi v }
  | .ne => b

/-- `extract_all_sorted_ranges`. -/
def collectSorted (part : Partition) : Expr Q → List SortedRangePred → List SortedRangePred
  | .between _ col _ lo hi, bs =>
    if part.isSorted col then
      boundColumn col (fun b => { b with lo := max b.lo lo, hi := min b.hi hi }) bs
    else bs
  | .compare c, bs =>
    if c.isFloat = false ∧ part.isSorted c.column then boundColumn c.column (c.op.bound c.value) bs
    else bs
  | .and l r, bs => collectSorted part r (collectSorted part l bs)
  | _, bs => bs

/-- `extract_all_index_eqs`. -/
def collectEqs (part : Partition) : Expr Q → List (String × Int)
  | .compare c =>
    if c.op = .eq ∧ c.isFloat = false ∧ (part.isGrouped c.column || part.isParted c.column) then
      [(c.column, c.value)]
    else []
  | .and l r => collectEqs part l ++ collectEqs part r
  | _ => []

/-- `all_indexed`: a conjunction of tests on indexed columns. -/
def allIndexed (cols : List String) : Expr Q → Bool
  | .compare c => c.column ∈ cols
  | .between _ col _ _ _ => col ∈ cols
  | .and l r => allIndexed cols l && allIndexed cols r
  | _ => false

/-- One `g#` or `p#` equality. -/
def intersectEq (part : Partition) (r : IndexResult) (pred : String × Int) : IndexResult :=
  if part.isGrouped pred.1 then r.intersectSet (part.groupedLookup pred.1 pred.2)
  else r.intersectRange (part.partedRange pred.1 pred.2).1 (part.partedRange pred.1 pred.2).2

/-- The range of one `s#` column. -/
def intersectSorted (part : Partition) (r : IndexResult) (pred : SortedRangePred) : IndexResult :=
  let range := part.sortedRange pred.col pred.lo pred.hi
  r.intersectRange range.1 range.2

/-- What the indexes say about a `WHERE`: candidate rows, and the columns they were found by. -/
structure IndexPlan where
  candidates : List Nat
  indexedCols : List String

/-- The bounds the `WHERE` puts on `s#` columns. -/
def sortedPreds (part : Partition) (w : Option (Expr Q)) : List SortedRangePred :=
  (w.map fun e => collectSorted part e []).getD []

/-- The equalities of the `WHERE` on `g#` and `p#` columns. -/
def eqPreds (part : Partition) (w : Option (Expr Q)) : List (String × Int) :=
  (w.map (collectEqs part)).getD []

/-- The columns whose conditions count as answered. -/
def indexedCols (part : Partition) (w : Option (Expr Q)) : List String :=
  (if (extractTimeRange w).isSome then ["timestamp", "recv_ts"] else []) ++
    (sortedPreds part w).map SortedRangePred.col ++ (eqPreds part w).map Prod.fst

/-- The rows of the time window; none for a partition outside of it. -/
def timeResult (part : Partition) (w : Option (Expr Q)) : Option IndexResult :=
  match extractTimeRange w with
  | none => some {}
  | some (lo, hi) =>
    if part.overlapsTimeRange lo hi then
      some (({} : IndexResult).setRange (part.timestampRange lo hi).1 (part.timestampRange lo hi).2)
    else none

def Unindexed (part : Partition) (w : Option (Expr Q)) : Prop :=
  extractTimeRange w = none ∧ sortedPreds part w = [] ∧ eqPreds part w = []

instance (part : Partition) (w : Option (Expr Q)) : Decidable (Unindexed part w) :=
  decidable_of_iff ((extractTimeRange w).isNone ∧ (sortedPreds part w).isEmpty ∧
    (eqPreds part w).isEmpty) (by simp [Unindexed])

/-- The index phase of `collect_and_intersect`; nothing when no index applies. -/
def indexPlan (part : Partition) (w : Option (Expr Q)) : Option IndexPlan :=
  if Unindexed part w then none
  else some {
    candidates := match timeResult part w with
      | none => []
      | some r =>
        ((eqPreds part w).foldl (intersectEq part)
          ((sortedPreds part w).foldl (intersectSorted part) r)).materialize
    indexedCols := indexedCols part w }

/-- `eval_remaining_where`: the candidates when every condition was indexed. -/
def evalRemainingWhere (env : Env) (part : Partition) (w : Option (Expr Q)) (plan : IndexPlan) :
    Except String (List Nat) :=
  match w with
  | none => .ok plan.candidates
  | some e =>
    if allIndexed plan.indexedCols e then .ok plan.candidates
    else selectRows (fun i => evalExprSingleRow env part i e) plan.candidates

/-- `collect_and_intersect`: the selected rows and the number scanned. -/
def collectAndIntersect (env : Env) (part : Partition) (w : Option (Expr Q)) :
    Except String (List Nat × Nat) :=
  match indexPlan part w with
  | none => do pure (← evalWhere env part part.numRows w, part.numRows)
  | some plan => do pure (← evalRemainingWhere env part w plan, plan.candidates.length)

def chosenRows (env : Env) (w : Option (Expr Q)) (part : Partition) : List Nat :=
  match collectAndIntersect env part w with
  | .ok (sel, _) => sel
  | .error _ => []

/-! ## The candidates

`IndexResult.Has` is the set of rows an index result stands for; both intersections intersect
it. The bounds are cut to 32 bits, so this needs `IndexResult.Small`, which every lookup keeps. -/

namespace IndexResult

def Has (r : IndexResult) (i : Nat) : Prop :=
  match r.rowSet with
  | some s => i ∈ s
  | none => r.rangeBegin ≤ i ∧ i < r.rangeEnd

/-- The bounds are row numbers, or the upper one not set, and the set lies between. -/
structure Small (r : IndexResult) : Prop where
  rangeBegin_lt : r.rangeBegin < 2 ^ 32
  rangeEnd_lt : r.rangeEnd < 2 ^ 32 ∨ r.rangeEnd = sizeMax
  row_small : ∀ s, r.rowSet = some s → ∀ i ∈ s, i + 1 < 2 ^ 32
  row_inRange : ∀ s, r.rowSet = some s → ∀ i ∈ s, r.rangeBegin ≤ i ∧ i < r.rangeEnd
  row_nodup : ∀ s, r.rowSet = some s → s.Nodup

def Narrowed (r : IndexResult) : Prop := r.rowSet.isSome ∨ r.rangeEnd < 2 ^ 32

def Ascends (r : IndexResult) : Prop := ∀ s, r.rowSet = some s → s.Pairwise (· < ·)

section

variable {r : IndexResult} {b e : Nat} {s : List Nat}

section

variable (hb : r.rangeBegin < 2 ^ 32) (he : r.rangeEnd < 2 ^ 32 ∨ r.rangeEnd = sizeMax)

include hb he

theorem inRange_iff {i : Nat} (hi : i + 1 < 2 ^ 32 ∨ r.rangeEnd < 2 ^ 32) :
    r.inRange i ↔ r.rangeBegin ≤ i ∧ i < r.rangeEnd := by
  simp only [inRange, Bool.and_eq_true, decide_eq_true_eq, Nat.mod_eq_of_lt hb]
  rcases he with he | he
  · rw [Nat.mod_eq_of_lt he]
  · rw [he] at hi ⊢
    unfold sizeMax at hi ⊢
    omega

theorem small_of_rows
    (h : ∀ s, r.rowSet = some s → s.Nodup ∧ ∀ i ∈ s, (i + 1 < 2 ^ 32 ∨ r.rangeEnd < 2 ^ 32) ∧
      r.rangeBegin ≤ i ∧ i < r.rangeEnd) : r.Small where
  rangeBegin_lt := hb
  rangeEnd_lt := he
  row_small s hs i hi := by
    have := (h s hs).2 i hi
    omega
  row_inRange s hs i hi := ((h s hs).2 i hi).2
  row_nodup s hs := (h s hs).1

end

theorem inRange_of_has (hr : r.Small) {i : Nat} (hi : r.Has i) :
    r.rangeBegin ≤ i ∧ i < r.rangeEnd := by
  unfold Has at hi
  split at hi
  · exact hr.row_inRange _ ‹_› i hi
  · exact hi

/-- `r'` is `r` cut to the rows of `P`. -/
structure Cuts (r r' : IndexResult) (P : Nat → Prop) : Prop where
  small : r'.Small ∧ r'.Ascends
  has : ∀ i, r'.Has i ↔ r.Has i ∧ P i
  narrowed : r'.Narrowed

theorem intersectRange_spec (hr : r.Small) (hb : b < 2 ^ 32) (he : e < 2 ^ 32) :
    (r.intersectRange b e).Small ∧ ∀ i, (r.intersectRange b e).Has i ↔ r.Has i ∧ b ≤ i ∧ i < e := by
  have hb' : max r.rangeBegin b < 2 ^ 32 := max_lt hr.rangeBegin_lt hb
  have he' : min r.rangeEnd e < 2 ^ 32 := min_lt_of_right_lt he
  have hin (i : Nat) := inRange_iff (i := i) (r := r.intersectRange b e) hb' (.inl he') (.inr he')
  refine ⟨small_of_rows hb' (.inl he') fun s hs => ?_, fun i => ?_⟩
  · obtain ⟨t, ht, rfl⟩ := Option.map_eq_some_iff.mp hs
    exact ⟨(hr.row_nodup t ht).filter _, fun i hi => ⟨.inr he', (hin i).mp (of_mem_filter hi)⟩⟩
  cases hs : r.rowSet with
  | none => simp only [Has, intersectRange, hs, Option.map_none]; omega
  | some s =>
    simp only [Has, intersectRange, hs, Option.map_some, mem_filter]
    refine and_congr_right fun hi => (hin i).trans ?_
    have hrow := hr.row_inRange s hs i hi
    simp only [intersectRange]
    omega

theorem intersectSet_spec (hr : r.Small) (hs : ∀ i ∈ s, i + 1 < 2 ^ 32 ∨ r.rangeEnd < 2 ^ 32)
    (hn : s.Nodup) : (r.intersectSet s).Small ∧ (∀ i, (r.intersectSet s).Has i ↔ r.Has i ∧ i ∈ s) ∧
      (r.intersectSet s).Narrowed ∧ (r.intersectSet s).rangeEnd = r.rangeEnd ∧
      (r.Ascends → s.Pairwise (· < ·) → (r.intersectSet s).Ascends) := by
  -- Either way the new set is part of the old one or of the given one.
  obtain ⟨t, heq, hsub, hmem⟩ : ∃ t, r.intersectSet s = { r with rowSet := some t } ∧
      (t.Sublist s ∨ ∃ u, r.rowSet = some u ∧ t.Sublist u) ∧ ∀ i, i ∈ t ↔ r.Has i ∧ i ∈ s := by
    unfold intersectSet
    split
    next ht =>
      refine ⟨_, rfl, .inl filter_sublist, fun i => ?_⟩
      rw [mem_filter, and_comm]
      simp only [Has, ht]
      exact and_congr_left fun hi => inRange_iff hr.rangeBegin_lt hr.rangeEnd_lt (hs i hi)
    next t ht =>
      split
      · exact ⟨_, rfl, .inl filter_sublist, fun i => by simp [Has, ht, and_comm]⟩
      · exact ⟨_, rfl, .inr ⟨t, ht, filter_sublist⟩, fun i => by simp [Has, ht]⟩
  rw [heq]
  refine ⟨small_of_rows hr.rangeBegin_lt hr.rangeEnd_lt ?_, hmem, .inl rfl, rfl,
    fun hasc hsorted => ?_⟩
  · rintro _ ⟨⟩
    refine ⟨?_, fun i hi => ?_⟩
    · obtain hsub | ⟨u, hu, hsub⟩ := hsub
      · exact hsub.nodup hn
      · exact hsub.nodup (hr.row_nodup u hu)
    · obtain ⟨hhas, hi⟩ := (hmem i).mp hi
      exact ⟨hs i hi, inRange_of_has hr hhas⟩
  · rintro _ ⟨⟩
    obtain hsub | ⟨u, hu, hsub⟩ := hsub
    · exact hsorted.sublist hsub
    · exact (hasc u hu).sublist hsub

theorem cuts_intersectRange (hr : r.Small ∧ r.Ascends) (hb : b < 2 ^ 32) (he : e < 2 ^ 32) :
    Cuts r (r.intersectRange b e) fun i => b ≤ i ∧ i < e := by
  obtain ⟨hsmall, hhas⟩ := intersectRange_spec hr.1 hb he
  refine ⟨⟨hsmall, fun s hs => ?_⟩, hhas, .inr (min_lt_of_right_lt he)⟩
  obtain ⟨t, ht, rfl⟩ := Option.map_eq_some_iff.mp hs
  exact (hr.2 t ht).filter _

theorem cuts_intersectSet (hr : r.Small ∧ r.Ascends) (hs : ∀ i ∈ s, i + 1 < 2 ^ 32)
    (hsorted : s.Pairwise (· < ·)) : Cuts r (r.intersectSet s) (· ∈ s) := by
  obtain ⟨hsmall, hhas, hnarrow, -, hasc⟩ :=
    intersectSet_spec hr.1 (fun i hi => .inl (hs i hi)) (hsorted.imp ne_of_lt)
  exact ⟨⟨hsmall, hasc hr.2 hsorted⟩, hhas, hnarrow⟩

/-- Once narrowed, the materialized rows are those of the result, each once. -/
theorem mem_materialize (hn : r.Narrowed) (i : Nat) : i ∈ r.materialize ↔ r.Has i := by
  unfold materialize Has
  split
  · rfl
  rename_i hs
  have he : r.rangeEnd < 2 ^ 32 := by simpa [Narrowed, hs] using hn
  rw [if_neg (by unfold sizeMax; omega), mem_range'_1]
  omega

theorem has_lt (hr : r.Small) (hn : r.Narrowed) {i : Nat} (hi : r.Has i) : i < 2 ^ 32 := by
  unfold Has at hi
  split at hi
  · have := hr.row_small _ ‹_› i hi
    omega
  · have he : r.rangeEnd < 2 ^ 32 := by simpa [Narrowed, *] using hn
    omega

end

/-! ## Sequences of intersections -/

/-- A call on an index result. -/
inductive Call where
  | range (b e : Nat)
  | set (s : List Nat)

def apply (r : IndexResult) : Call → IndexResult
  | .range b e => r.intersectRange b e
  | .set s => r.intersectSet s

/-- Bounds and row numbers have 32 bits, a set has no duplicates. -/
def Call.Fits : Call → Prop
  | range b e => b < 2 ^ 32 ∧ e < 2 ^ 32
  | set s => s.Nodup ∧ ∀ i ∈ s, i < 2 ^ 32

def Call.Keeps (i : Nat) : Call → Prop
  | range b e => b ≤ i ∧ i < e
  | set s => i ∈ s

theorem foldl_apply (calls : List Call) {r : IndexResult} (hr : r.Small) (he : r.rangeEnd < 2 ^ 32)
    (hc : ∀ c ∈ calls, c.Fits) : (calls.foldl apply r).Small ∧
      (calls.foldl apply r).rangeEnd < 2 ^ 32 ∧
      ∀ i, (calls.foldl apply r).Has i ↔ r.Has i ∧ ∀ c ∈ calls, c.Keeps i := by
  induction calls generalizing r with
  | nil => exact ⟨hr, he, by simp⟩
  | cons c calls ih =>
    rw [forall_mem_cons] at hc
    obtain ⟨hr, he, hstep⟩ : (r.apply c).Small ∧ (r.apply c).rangeEnd < 2 ^ 32 ∧
        ∀ i, (r.apply c).Has i ↔ r.Has i ∧ c.Keeps i := by
      cases c with
      | range b e =>
        obtain ⟨hsmall, hhas⟩ := intersectRange_spec hr hc.1.1 hc.1.2
        exact ⟨hsmall, min_lt_of_right_lt hc.1.2, hhas⟩
      | set s =>
        obtain ⟨hsmall, hhas, -, hend, -⟩ := intersectSet_spec hr (fun _ _ => .inr he) hc.1.1
        exact ⟨hsmall, hend ▸ he, hhas⟩
    obtain ⟨hr, he, hhas⟩ := ih hr he hc.2
    refine ⟨hr, he, fun i => ?_⟩
    rw [foldl_cons, hhas, hstep, forall_mem_cons, and_assoc]

/-- Whatever the order of the calls, the rows are those of the first range that every later range
and every set has, each once. -/
theorem materialize_intersections (b e : Nat) (calls : List Call) (hb : b < 2 ^ 32)
    (he : e < 2 ^ 32) (hc : ∀ c ∈ calls, c.Fits) :
    let rows := (calls.foldl apply (setRange {} b e)).materialize
    rows.Nodup ∧ ∀ i, i ∈ rows ↔ (b ≤ i ∧ i < e) ∧ ∀ c ∈ calls, c.Keeps i := by
  obtain ⟨hsmall, he, hhas⟩ :=
    foldl_apply calls (r := setRange {} b e) (small_of_rows hb (.inl he) nofun) he hc
  refine ⟨?_, fun i => (mem_materialize (.inr he) i).trans (hhas i)⟩
  unfold materialize
  split
  next s hs => exact hsmall.row_nodup s hs
  next => exact nodup_range'

theorem materialize_range_set :
    let rows := ([.set [5, 3, 9], .range 4 8].foldl apply (setRange {} 0 10)).materialize
    rows.Nodup ∧ ∀ i, i ∈ rows ↔
      (0 ≤ i ∧ i < 10) ∧ ∀ c ∈ [Call.set [5, 3, 9], .range 4 8], c.Keeps i :=
  materialize_intersections 0 10 _ (by decide) (by decide) (by simp [Call.Fits])

end IndexResult

/-- An equality holds at a row as far as its index knows. -/
def EqIndexed (part : Partition) (pred : String × Int) (i : Nat) : Prop :=
  if part.isGrouped pred.1 then i ∈ part.groupedLookup pred.1 pred.2
  else (part.partedRange pred.1 pred.2).1 ≤ i ∧ i < (part.partedRange pred.1 pred.2).2

/-- The bounds on an `s#` column hold as far as the binary searches know. -/
def SortedIndexed (part : Partition) (pred : SortedRangePred) (i : Nat) : Prop :=
  (part.sortedRange pred.col pred.lo pred.hi).1 ≤ i ∧
    i < (part.sortedRange pred.col pred.lo pred.hi).2

/-- The time window holds at a row as far as the binary searches know. -/
def TimeIndexed (part : Partition) (lo hi : Int) (i : Nat) : Prop :=
  part.overlapsTimeRange lo hi = true ∧
    (part.timestampRange lo hi).1 ≤ i ∧ i < (part.timestampRange lo hi).2

/-- A row is left after all indexes, if there are any. -/
structure Candidate (part : Partition) (w : Option (Expr Q)) (i : Nat) : Prop where
  row : Unindexed part w → i < part.numRows
  time : ∀ lo hi, extractTimeRange w = some (lo, hi) → TimeIndexed part lo hi i
  sorted : ∀ pred ∈ sortedPreds part w, SortedIndexed part pred i
  eq : ∀ pred ∈ eqPreds part w, EqIndexed part pred i

section

variable {part : Partition} {r : IndexResult} {w : Option (Expr Q)} {i : Nat}

theorem cuts_intersectEq (hr : r.Small ∧ r.Ascends) (pred : String × Int) :
    r.Cuts (intersectEq part r pred) (EqIndexed part pred) := by
  have hparted := part.partedRange_small pred.1 pred.2
  unfold intersectEq EqIndexed
  split
  · exact IndexResult.cuts_intersectSet hr (fun i => part.groupedLookup_small _ _)
      (part.groupedLookup_sorted _ _)
  · exact IndexResult.cuts_intersectRange hr (lt_of_le_of_lt hparted.1 hparted.2) hparted.2

theorem foldl_cuts {α : Type} {f : IndexResult → α → IndexResult} {P : α → Nat → Prop}
    (hcuts : ∀ {r : IndexResult}, r.Small ∧ r.Ascends → ∀ a, r.Cuts (f r a) (P a)) (l : List α)
    {r : IndexResult} (hr : r.Small ∧ r.Ascends) :
    ((l.foldl f r).Small ∧ (l.foldl f r).Ascends) ∧
      (∀ i, (l.foldl f r).Has i ↔ r.Has i ∧ ∀ a ∈ l, P a i) ∧
      (r.Narrowed ∨ l ≠ [] → (l.foldl f r).Narrowed) := by
  induction l generalizing r with
  | nil => exact ⟨hr, by simp, by simp⟩
  | cons a l ih =>
    have hcut := hcuts hr a
    obtain ⟨hs, hh, hn⟩ := ih hcut.small
    refine ⟨hs, fun i => ?_, fun _ => hn (.inl hcut.narrowed)⟩
    rw [foldl_cons, hh, hcut.has]
    simp [and_assoc]

theorem timeResult_spec (part : Partition) (w : Option (Expr Q)) :
    (timeResult part w = none ∧ ∀ i, ¬∀ lo hi, extractTimeRange w = some (lo, hi) →
      TimeIndexed part lo hi i) ∨
    ∃ r, timeResult part w = some r ∧ (r.Small ∧ r.Ascends) ∧
      (extractTimeRange w ≠ none → r.Narrowed) ∧
      ∀ i, i + 1 < 2 ^ 64 → (r.Has i ↔ ∀ lo hi, extractTimeRange w = some (lo, hi) →
        TimeIndexed part lo hi i) := by
  unfold timeResult
  cases ht : extractTimeRange w with
  | none =>
    refine .inr ⟨{}, rfl,
      ⟨IndexResult.small_of_rows (by decide) (.inr rfl) (by simp), nofun⟩, by simp,
      fun i hi => ?_⟩
    have hlt : i < sizeMax := Nat.lt_sub_of_add_lt hi
    simp [IndexResult.Has, hlt]
  | some range =>
    obtain ⟨lo, hi⟩ := range
    by_cases hover : part.overlapsTimeRange lo hi
    · have hsmall := part.sortedRange_small "timestamp" lo hi
      refine .inr ⟨_, if_pos hover, ⟨IndexResult.small_of_rows hsmall.1 (.inl hsmall.2)
        (by simp [IndexResult.setRange]), nofun⟩, fun _ => .inr hsmall.2, fun i _ => ?_⟩
      simp [IndexResult.Has, IndexResult.setRange, TimeIndexed, hover]
    · refine .inl ⟨if_neg hover, fun i h => hover ?_⟩
      exact (h lo hi rfl).1

theorem SortedIndexed.small {pred : SortedRangePred} (h : SortedIndexed part pred i) : i < 2 ^ 32 :=
  lt_trans h.2 (part.sortedRange_small _ _ _).2

theorem EqIndexed.small {pred : String × Int} (h : EqIndexed part pred i) : i < 2 ^ 32 := by
  unfold EqIndexed at h
  split at h
  · have := part.groupedLookup_small _ _ h
    omega
  · exact lt_trans h.2 (part.partedRange_small _ _).2

theorem TimeIndexed.small {lo hi : Int} (h : TimeIndexed part lo hi i) : i < 2 ^ 32 :=
  lt_trans h.2.2 (part.sortedRange_small "timestamp" lo hi).2

theorem Candidate.small (h : Candidate part w i) (hidx : ¬Unindexed part w) : i < 2 ^ 32 := by
  cases ht : extractTimeRange w with
  | some range => exact (h.time range.1 range.2 ht).small
  | none =>
    by_cases hs : sortedPreds part w = []
    · have he : eqPreds part w ≠ [] := fun he => hidx ⟨ht, hs, he⟩
      obtain ⟨pred, hpred⟩ := exists_mem_of_ne_nil _ he
      exact (h.eq pred hpred).small
    · obtain ⟨pred, hpred⟩ := exists_mem_of_ne_nil _ hs
      exact (h.sorted pred hpred).small

/-- The index phase yields the candidates, in order. -/
theorem mem_candidates {plan : IndexPlan} (hplan : indexPlan part w = some plan) :
    plan.candidates.Pairwise (· < ·) ∧ ∀ i, i ∈ plan.candidates ↔ Candidate part w i := by
  unfold indexPlan at hplan
  split at hplan
  · cases hplan
  rename_i hidx
  simp only [Option.some.injEq] at hplan
  subst hplan
  rcases timeResult_spec part w with ⟨hnone, hno⟩ | ⟨r, hr, hsmall, htime, hhas⟩
  · rw [hnone]
    refine ⟨.nil, fun i => ?_⟩
    simp only [not_mem_nil, false_iff]
    exact fun h => hno i h.time
  obtain ⟨hs1, hh1, hn1⟩ := foldl_cuts (f := intersectSorted part)
    (fun hr _ => IndexResult.cuts_intersectRange hr (part.sortedRange_small _ _ _).1
      (part.sortedRange_small _ _ _).2) (sortedPreds part w) hsmall
  obtain ⟨⟨hs2, hasc⟩, hh2, hn2⟩ := foldl_cuts (f := intersectEq part) cuts_intersectEq
    (eqPreds part w) hs1
  have hnarrow := hn2 (by
    by_cases heq : eqPreds part w = []
    · refine .inl (hn1 ?_)
      by_cases hsort : sortedPreds part w = []
      · exact .inl (htime fun ht => hidx ⟨ht, hsort, heq⟩)
      · exact .inr hsort
    · exact .inr heq)
  simp only [hr]
  refine ⟨?_, fun i => ?_⟩
  · unfold IndexResult.materialize
    split
    · exact hasc _ ‹_›
    · exact pairwise_lt_range'
  rw [IndexResult.mem_materialize hnarrow]
  constructor
  · intro h
    have hi := IndexResult.has_lt hs2 hnarrow h
    rw [hh2, hh1] at h
    exact ⟨fun hu => absurd hu hidx, (hhas i (by omega)).mp h.1.1, h.1.2, h.2⟩
  intro h
  have hi := h.small hidx
  rw [hh2, hh1]
  exact ⟨⟨(hhas i (by omega)).mpr h.time, h.sorted⟩, h.eq⟩

theorem candidate_of_unindexed (hu : Unindexed part w) : Candidate part w i ↔ i < part.numRows := by
  obtain ⟨ht, hs, he⟩ := hu
  exact ⟨fun h => h.row ⟨ht, hs, he⟩,
    fun h => ⟨fun _ => h, by simp [ht], by simp [hs], by simp [he]⟩⟩

end

/-! ## The selection of a partition -/

/-- The test a candidate still has to pass: the scan without an index, nothing if all columns were
indexed, else the test of the row. -/
def remainingTest (env : Env) (part : Partition) (w : Option (Expr Q)) (i : Nat) :
    Except String Bool :=
  match w with
  | none => .ok true
  | some e =>
    if Unindexed part w then scanRow env part i e
    else if allIndexed (indexedCols part w) e then .ok true
    else evalExprSingleRow env part i e

/-- `collectAndIntersect` selects the candidates that pass the remaining test, in order. -/
theorem collectAndIntersect_spec {env : Env} {part : Partition} {w : Option (Expr Q)}
    {l : List Nat} {n : Nat} (h : collectAndIntersect env part w = .ok (l, n)) :
    l.Pairwise (· < ·) ∧ ∀ i, i ∈ l ↔ Candidate part w i ∧ passes (remainingTest env part w i) := by
  unfold collectAndIntersect at h
  cases hplan : indexPlan part w with
  | none =>
    have hu : Unindexed part w := by
      by_contra hu
      simp [indexPlan, hu] at hplan
    simp only [hplan, bind_eq_ok] at h
    obtain ⟨l, hl, rfl, -⟩ := h
    simp only [candidate_of_unindexed hu]
    cases w with
    | none =>
      simp only [evalWhere, Except.ok.injEq] at hl
      subst hl
      exact ⟨pairwise_lt_range, by simp [remainingTest, passes]⟩
    | some e =>
      obtain ⟨-, rfl⟩ := evalExpr_eq_ok.mp hl
      exact ⟨pairwise_lt_range.filter _, by simp [scanRows, remainingTest, hu]⟩
  | some plan =>
    have hu : ¬Unindexed part w := by
      intro hu
      simp [indexPlan, hu] at hplan
    have hcols : plan.indexedCols = indexedCols part w := by
      simp only [indexPlan, hu, if_false, Option.some.injEq] at hplan
      rw [← hplan]
    obtain ⟨hasc, hmem⟩ := mem_candidates hplan
    simp only [hplan, bind_eq_ok] at h
    obtain ⟨l, hl, rfl, -⟩ := h
    unfold evalRemainingWhere at hl
    cases w with
    | none =>
      simp only [Except.ok.injEq] at hl
      subst hl
      exact ⟨hasc, by simp [hmem, remainingTest, passes]⟩
    | some e =>
      simp only [hcols] at hl
      split at hl
      next hall =>
        simp only [Except.ok.injEq] at hl
        subst hl
        exact ⟨hasc, by simp [hmem, remainingTest, hu, hall, passes]⟩
      next hall =>
        obtain ⟨-, rfl⟩ := selectRows_eq_ok.mp hl
        exact ⟨hasc.filter _, by simp [hmem, remainingTest, hu, hall]⟩

theorem collectAndIntersect_total (env : Env) (part : Partition) {w : Option (Expr Q)}
    (hscan : ∀ e, w = some e → ∀ i, ∃ b, scanRow env part i e = .ok b) :
    ∃ l n, collectAndIntersect env part w = .ok (l, n) := by
  unfold collectAndIntersect
  cases indexPlan part w with
  | none =>
    cases w with
    | none => exact ⟨_, _, rfl⟩
    | some e =>
      have h : evalExpr env part part.numRows e = .ok (scanRows env part part.numRows e) :=
        evalExpr_eq_ok.mpr ⟨fun i _ => hscan e rfl i, rfl⟩
      exact ⟨_, _, by simp only [evalWhere, h]; rfl⟩
  | some plan =>
    cases w with
    | none => exact ⟨_, _, rfl⟩
    | some e =>
      by_cases hall : allIndexed plan.indexedCols e
      · exact ⟨_, _, by simp only [evalRemainingWhere, hall]; rfl⟩
      · have h := selectRows_eq_ok.mpr
          ⟨fun i (_ : i ∈ plan.candidates) => evalExprSingleRow_total (hscan e rfl i), rfl⟩
        exact ⟨_, _, by simp only [evalRemainingWhere, hall, h]; rfl⟩

end Zepto.Sql
