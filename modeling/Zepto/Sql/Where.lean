import Zepto.Lib.SortedSets
import Zepto.Sql.Arith

/-!
# Conditions

The executor has three evaluators of a condition: `evalExpr` selects the rows of a partition node by
node with sorted set operations, `evalExprSingleRow` tests one row behind the indexes,
`evalExprSingle` one for `CASE WHEN`, reading columns as `int64` words. The first two take a
comparison of the pseudo-column `symbol` for granted, since the partitions were chosen by it.
`scanRow` is what `evalExpr` decides for one row (`evalExpr_eq_ok`).
-/

namespace Zepto.Sql

open Zepto.Lib Zepto.Storage List

variable {Q : Type}

/-! ## Comparisons -/

/-- `compare_val` on `int64`. -/
def CompareOp.test (op : CompareOp) (v cmp : Int) : Bool :=
  match op with
  | .eq => v = cmp
  | .ne => v ≠ cmp
  | .gt => v > cmp
  | .lt => v < cmp
  | .ge => v ≥ cmp
  | .le => v ≤ cmp

/-- `compare_val` on doubles. -/
def CompareOp.testF64 (op : CompareOp) (v cmp : Float) : Bool :=
  match op with
  | .eq => v == cmp
  | .ne => v != cmp
  | .gt => v > cmp
  | .lt => v < cmp
  | .ge => v ≥ cmp
  | .le => v ≤ cmp

def Comparison.cmpF64 (c : Comparison) : Float :=
  if c.isFloat then c.valueF else doubleOfInt c.value

/-- A `COMPARE` node at a row. -/
def compareTest (env : Env) (part : Partition) (c : Comparison) (i : Nat) : Except String Bool :=
  match c.lhsExpr with
  | some lhs => do pure (c.op.testF64 (← evalArithF64 env part i lhs) c.cmpF64)
  | none =>
    if c.column = "symbol" then .ok true
    else match part.getColumn c.column with
      | none => .ok false
      | some cv =>
        if c.isFloat || cv.type.isFloat then
          .ok (c.op.testF64 (cv.readF64 part.mem i) c.cmpF64)
        else .ok (c.op.test (cv.readI64 part.mem i) c.value)

/-- A `BETWEEN` node at a row. -/
def betweenTest (env : Env) (part : Partition) (col : String) (lhs : Option ArithExpr)
    (lo hi : Int) (i : Nat) : Except String Bool :=
  let inF64 (v : Float) : Bool := v ≥ doubleOfInt lo && v ≤ doubleOfInt hi
  match lhs with
  | some lhs => do pure (inF64 (← evalArithF64 env part i lhs))
  | none =>
    if col = "symbol" then .ok true
    else match part.getColumn col with
      | none => .ok false
      | some cv =>
        if cv.type.isFloat then .ok (inF64 (cv.readF64 part.mem i))
        else .ok (cv.readI64 part.mem i ≥ lo && cv.readI64 part.mem i ≤ hi)

/-- An `IN` node in a scan: a stored column named `symbol` comes before the partition's symbol. -/
def inTestScan (part : Partition) (col : String) (vals : List Int) (negated : Bool) (i : Nat) :
    Bool :=
  match part.getColumn col with
  | some cv => (cv.readI64 part.mem i ∈ vals) != negated
  | none => if col = "symbol" then (part.symbolValue ∈ vals) != negated else false

/-- An `IN` node at a single row: the symbol of the partition comes first. -/
def inTestRow (part : Partition) (col : String) (vals : List Int) (negated : Bool) (i : Nat) :
    Bool :=
  if col = "symbol" then (part.symbolValue ∈ vals) != negated
  else match part.getColumn col with
    | some cv => (cv.readI64 part.mem i ∈ vals) != negated
    | none => false

/-- An `IS NULL` node at a row; `INT64_MIN` and a missing column are null. -/
def isNullTest (part : Partition) (col : String) (negated : Bool) (i : Nat) : Bool :=
  (match part.getColumn col with
    | none => true
    | some cv => decide (cv.readI64 part.mem i = int64Min)) != negated

/-- The row of the matching table after one more character of the text. -/
def likeRow (c : Char) (left : Bool) : List Bool → List Char → List Bool
  | up :: next :: prev, p :: pat =>
    let here := if p = '%' then next || left else (p = '_' || p = c) && up
    here :: likeRow c here (next :: prev) pat
  | _, _ => []

def likeRow0 (left : Bool) : List Char → List Bool
  | [] => []
  | p :: pat =>
    let here := left && p = '%'
    here :: likeRow0 here pat

/-- `like_match`: which beginnings of the text match which of the pattern, row by row; the answer is
the last entry. -/
def likeMatch (pat text : List Char) : Bool :=
  (text.foldl (fun row c => false :: likeRow c false row pat)
    (true :: likeRow0 true pat)).getLastD false

/-- A `LIKE` node at a row, on the decimal text of the value. -/
def likeTest (part : Partition) (col pat : String) (negated : Bool) (i : Nat) : Bool :=
  let v := if col = "symbol" then part.symbolValue
    else match part.getColumn col with
      | some cv => cv.readI64 part.mem i
      | none => 0
  likeMatch pat.toList (toString v).toList != negated

/-! ## Evaluators -/

/-- The rows whose test succeeds; a test that throws ends the loop. -/
def selectRows (test : Nat → Except String Bool) : List Nat → Except String (List Nat)
  | [] => .ok []
  | i :: is => do
    let b ← test i
    let rest ← selectRows test is
    pure (if b then i :: rest else rest)

/-- `eval_expr`: the rows below `n` that satisfy the condition. -/
def evalExpr (env : Env) (part : Partition) (n : Nat) : Expr Q → Except String (List Nat)
  | .null => .ok (range n)
  | .and l r => do
    let left ← evalExpr env part n l
    let right ← evalExpr env part n r
    pure (setIntersection left right)
  | .or l r => do
    let left ← evalExpr env part n l
    let right ← evalExpr env part n r
    pure (setUnion left right)
  | .not l => do
    let inner ← evalExpr env part n l
    pure (setDifference (range n) inner)
  | .compare c => selectRows (compareTest env part c) (range n)
  | .between _ col lhs lo hi => selectRows (betweenTest env part col lhs lo hi) (range n)
  | .inList _ col vals neg => .ok ((range n).filter (inTestScan part col vals neg))
  | .isNull _ col neg => .ok ((range n).filter (isNullTest part col neg))
  | .like _ col pat neg => .ok ((range n).filter (likeTest part col pat neg))
  | .scalarSubquery .. | .inSubquery .. => .ok []

def evalWhere (env : Env) (part : Partition) (n : Nat) : Option (Expr Q) → Except String (List Nat)
  | none => .ok (range n)
  | some e => evalExpr env part n e

def evalExprSingleRow (env : Env) (part : Partition) (i : Nat) : Expr Q → Except String Bool
  | .null => .ok true
  | .and l r => do
    if ← evalExprSingleRow env part i l then evalExprSingleRow env part i r else pure false
  | .or l r => do
    if ← evalExprSingleRow env part i l then pure true else evalExprSingleRow env part i r
  | .not l => do pure (!(← evalExprSingleRow env part i l))
  | .compare c => compareTest env part c i
  | .between _ col lhs lo hi => betweenTest env part col lhs lo hi i
  | .inList _ col vals neg => .ok (inTestRow part col vals neg i)
  | .isNull _ col neg => .ok (isNullTest part col neg i)
  | .like _ col pat neg => .ok (likeTest part col pat neg i)
  | .scalarSubquery .. | .inSubquery .. => .ok true

/-- `eval_expr_single`, the conditions of `CASE WHEN`. -/
def evalExprSingle (part : Partition) (i : Nat) : Expr Q → Bool
  | .null => true
  | .and l r => evalExprSingle part i l && evalExprSingle part i r
  | .or l r => evalExprSingle part i l || evalExprSingle part i r
  | .not l => !evalExprSingle part i l
  | .compare c =>
    match part.getColumn c.column with
    | none => false
    | some cv =>
      if c.isFloat then c.op.testF64 (doubleOfBits (load part.mem (cv.addr + 8 * i) 8)) c.valueF
      else c.op.test (cv.rawI64 part.mem i) c.value
  | .between _ col _ lo hi =>
    match colWord part col i with
    | some v => v ≥ lo && v ≤ hi
    | none => false
  | .inList _ col vals _ =>
    match colWord part col i with
    | some v => v ∈ vals
    | none => false
  | .isNull _ col neg =>
    (match colWord part col i with
      | some v => decide (v = int64Min)
      | none => true) != neg
  | .like _ col pat neg =>
    let v := if col = "symbol" then part.symbolValue else (colWord part col i).getD 0
    likeMatch pat.toList (toString v).toList != neg
  | .scalarSubquery .. | .inSubquery .. => true

/-- `eval_case_when`: the value of the first branch whose condition holds. -/
def evalCaseWhen (env : Env) (part : Partition) (i : Nat) (cw : CaseWhen Q) : Except String Int :=
  match cw.branches.find? fun b => evalExprSingle part i b.1 with
  | some (_, value) => evalArith env part i value
  | none =>
    match cw.elseVal with
    | some value => evalArith env part i value
    | none => .ok 0

/-! ## A scan is a filter -/

def passes : Except String Bool → Bool
  | .ok b => b
  | .error _ => false

/-- What `evalExpr` decides for row `i`, evaluating both sides of a connective. -/
def scanRow (env : Env) (part : Partition) (i : Nat) : Expr Q → Except String Bool
  | .null => .ok true
  | .and l r => do pure ((← scanRow env part i l) && (← scanRow env part i r))
  | .or l r => do pure ((← scanRow env part i l) || (← scanRow env part i r))
  | .not l => do pure (!(← scanRow env part i l))
  | .compare c => compareTest env part c i
  | .between _ col lhs lo hi => betweenTest env part col lhs lo hi i
  | .inList _ col vals neg => .ok (inTestScan part col vals neg i)
  | .isNull _ col neg => .ok (isNullTest part col neg i)
  | .like _ col pat neg => .ok (likeTest part col pat neg i)
  | .scalarSubquery .. | .inSubquery .. => .ok false

theorem bind_eq_ok {α β : Type} {x : Except String α} {f : α → Except String β} {b : β} :
    (x >>= f) = .ok b ↔ ∃ a, x = .ok a ∧ f a = .ok b := by
  cases x with
  | error e | ok a => simp [bind, Except.bind]

@[simp] theorem pure_eq_ok {α : Type} {a b : α} : (pure a : Except String α) = .ok b ↔ a = b := by
  simp [pure, Except.pure]

theorem selectRows_eq_ok {test : Nat → Except String Bool} {is l : List Nat} :
    selectRows test is = .ok l ↔
      (∀ i ∈ is, ∃ b, test i = .ok b) ∧ l = is.filter fun i => passes (test i) := by
  induction is generalizing l with
  | nil => simp [selectRows]
  | cons i is ih =>
    simp only [selectRows, bind_eq_ok, pure_eq_ok, ih, forall_mem_cons, filter_cons]
    constructor
    · rintro ⟨b, hb, rest, ⟨hrest, rfl⟩, rfl⟩
      exact ⟨⟨⟨b, hb⟩, hrest⟩, by simp [hb, passes]⟩
    · rintro ⟨⟨⟨b, hb⟩, hrest⟩, rfl⟩
      exact ⟨b, hb, _, ⟨hrest, rfl⟩, by simp [hb, passes]⟩

section

variable {env : Env} {part : Partition} {n : Nat}

variable {l r : Expr Q}

/-- The rows below `n` all pass or fail `scanRow` without an exception. -/
def ScanOk (env : Env) (part : Partition) (n : Nat) (e : Expr Q) : Prop :=
  ∀ i < n, ∃ b, scanRow env part i e = .ok b

/-- The rows below `n` that pass. -/
def scanRows (env : Env) (part : Partition) (n : Nat) (e : Expr Q) : List Nat :=
  (range n).filter fun i => passes (scanRow env part i e)

theorem filter_range_congr {p q : Nat → Bool} (h : ∀ i < n, p i = q i) :
    (range n).filter p = (range n).filter q :=
  filter_congr fun i hi => h i (mem_range.mp hi)

@[simp] theorem ok_bind {α β : Type} (a : α) (f : α → Except String β) : (.ok a >>= f) = f a := rfl

theorem scanOk_and : ScanOk env part n (.and l r) ↔ ScanOk env part n l ∧ ScanOk env part n r := by
  simp only [ScanOk, scanRow, bind_eq_ok]
  constructor
  · intro h
    refine ⟨fun i hi => ?_, fun i hi => ?_⟩ <;> obtain ⟨_, a, ha, b, hb, _⟩ := h i hi
    · exact ⟨a, ha⟩
    · exact ⟨b, hb⟩
  rintro ⟨hl, hr⟩ i hi
  obtain ⟨a, ha⟩ := hl i hi
  obtain ⟨b, hb⟩ := hr i hi
  exact ⟨_, a, ha, b, hb, rfl⟩

theorem scanOk_or : ScanOk env part n (.or l r) ↔ ScanOk env part n l ∧ ScanOk env part n r := by
  rw [← scanOk_and]
  simp only [ScanOk, scanRow, bind_eq_ok]
  refine forall₂_congr fun i _ => ?_
  constructor <;> rintro ⟨_, a, ha, b, hb, _⟩ <;> exact ⟨_, a, ha, b, hb, rfl⟩

theorem scanOk_not : ScanOk env part n (.not l) ↔ ScanOk env part n l := by
  simp only [ScanOk, scanRow, bind_eq_ok]
  refine forall₂_congr fun i _ => ?_
  constructor
  · rintro ⟨_, a, ha, _⟩; exact ⟨a, ha⟩
  · rintro ⟨a, ha⟩; exact ⟨_, a, ha, rfl⟩

section

variable (hl : ScanOk env part n l)

include hl

theorem scanRows_and (hr : ScanOk env part n r) :
    setIntersection (scanRows env part n l) (scanRows env part n r) =
      scanRows env part n (.and l r) := by
  unfold scanRows
  rw [setIntersection_filter pairwise_lt_range]
  refine filter_range_congr fun i hi => ?_
  obtain ⟨a, ha⟩ := hl i hi
  obtain ⟨b, hb⟩ := hr i hi
  simp [scanRow, ha, hb, passes]

theorem scanRows_or (hr : ScanOk env part n r) :
    setUnion (scanRows env part n l) (scanRows env part n r) = scanRows env part n (.or l r) := by
  unfold scanRows
  rw [setUnion_filter pairwise_lt_range]
  refine filter_range_congr fun i hi => ?_
  obtain ⟨a, ha⟩ := hl i hi
  obtain ⟨b, hb⟩ := hr i hi
  simp [scanRow, ha, hb, passes]

theorem scanRows_not :
    setDifference (range n) (scanRows env part n l) = scanRows env part n (.not l) := by
  unfold scanRows
  rw [setDifference_filter pairwise_lt_range]
  refine filter_range_congr fun i hi => ?_
  obtain ⟨a, ha⟩ := hl i hi
  simp [scanRow, ha, passes]

end

/-- `evalExpr` returns exactly when no row throws, and then selects the rows that pass. -/
theorem evalExpr_eq_ok {e : Expr Q} {l : List Nat} :
    evalExpr env part n e = .ok l ↔ ScanOk env part n e ∧ l = scanRows env part n e := by
  induction e generalizing l with
  | and l' r ihl ihr | or l' r ihl ihr =>
    simp only [evalExpr, bind_eq_ok, pure_eq_ok, ihl, ihr, scanOk_and, scanOk_or]
    constructor
    · rintro ⟨_, ⟨hl, rfl⟩, _, ⟨hr, rfl⟩, rfl⟩
      exact ⟨⟨hl, hr⟩, by simp [scanRows_and, scanRows_or, hl, hr]⟩
    · rintro ⟨⟨hl, hr⟩, rfl⟩
      exact ⟨_, ⟨hl, rfl⟩, _, ⟨hr, rfl⟩, by simp [scanRows_and, scanRows_or, hl, hr]⟩
  | not l' ih =>
    simp only [evalExpr, bind_eq_ok, pure_eq_ok, ih, scanOk_not]
    constructor
    · rintro ⟨_, ⟨hl, rfl⟩, rfl⟩
      exact ⟨hl, scanRows_not hl⟩
    · rintro ⟨hl, rfl⟩
      exact ⟨_, ⟨hl, rfl⟩, scanRows_not hl⟩
  | compare c
  | between _ col lhs lo hi => simp [evalExpr, selectRows_eq_ok, ScanOk, scanRows, scanRow]
  | _ => simp [evalExpr, ScanOk, scanRows, scanRow, passes, eq_comm]

end

/-! ## Tests that do not throw -/

def Expr.onColumns : Expr Q → Bool
  | .and l r | .or l r => l.onColumns && r.onColumns
  | .not l => l.onColumns
  | .compare c => c.lhsExpr.isNone
  | .between _ _ lhs _ _ => lhs.isNone
  | _ => true

def Expr.noSubquery : Expr Q → Bool
  | .and l r | .or l r => l.noSubquery && r.noSubquery
  | .not l => l.noSubquery
  | .scalarSubquery .. | .inSubquery .. => false
  | _ => true

/-- The condition tests a `symbol IN` list somewhere. -/
def testsSymbolIn : Expr Q → Bool
  | .and l r | .or l r => testsSymbolIn l || testsSymbolIn r
  | .not l => testsSymbolIn l
  | .inList _ col _ _ => col = "symbol"
  | _ => false

section

variable {env : Env} {part : Partition} {i : Nat} {e : Expr Q} {b : Bool}

theorem compareTest_total {c : Comparison} (h : c.lhsExpr = none) :
    ∃ b, compareTest env part c i = .ok b := by
  unfold compareTest
  rw [h]
  simp only
  split
  · exact ⟨_, rfl⟩
  · split
    · exact ⟨_, rfl⟩
    · split <;> exact ⟨_, rfl⟩

theorem betweenTest_total (col : String) (lo hi : Int) :
    ∃ b, betweenTest env part col none lo hi i = .ok b := by
  unfold betweenTest
  simp only
  split
  · exact ⟨_, rfl⟩
  · split
    · exact ⟨_, rfl⟩
    · split <;> exact ⟨_, rfl⟩

theorem scanRow_total (env : Env) (part : Partition) (i : Nat) (h : e.onColumns) :
    ∃ b, scanRow env part i e = .ok b := by
  induction e with
  | and l r ihl ihr | or l r ihl ihr =>
    simp only [Expr.onColumns, Bool.and_eq_true] at h
    obtain ⟨a, ha⟩ := ihl h.1
    obtain ⟨b, hb⟩ := ihr h.2
    rw [scanRow, ha, hb]
    exact ⟨_, rfl⟩
  | not l ih =>
    obtain ⟨a, ha⟩ := ih h
    exact ⟨!a, by simp [scanRow, ha]⟩
  | compare c => exact compareTest_total (Option.isNone_iff_eq_none.mp h)
  | between _ col lhs lo hi =>
    obtain rfl := Option.isNone_iff_eq_none.mp h
    exact betweenTest_total col lo hi
  | _ => exact ⟨_, rfl⟩

/-- A short-circuit test evaluates at most what the scan does. -/
theorem evalExprSingleRow_total (h : ∃ b, scanRow env part i e = .ok b) :
    ∃ b, evalExprSingleRow env part i e = .ok b := by
  induction e with
  | and l r ihl ihr | or l r ihl ihr =>
    simp only [scanRow, bind_eq_ok] at h
    obtain ⟨_, a, ha, b, hb, _⟩ := h
    obtain ⟨a, ha⟩ := ihl ⟨a, ha⟩
    obtain ⟨b, hb⟩ := ihr ⟨b, hb⟩
    simp only [evalExprSingleRow, ha, hb]
    cases a <;> exact ⟨_, rfl⟩
  | not l ih =>
    simp only [scanRow, bind_eq_ok] at h
    obtain ⟨_, a, ha, _⟩ := h
    obtain ⟨a, ha⟩ := ih ⟨a, ha⟩
    exact ⟨!a, by simp only [evalExprSingleRow, ha]; rfl⟩
  | compare | between => exact h
  | _ => exact ⟨_, rfl⟩

/-- The evaluators read an `IN` differently only on a stored column `symbol`. -/
theorem inTestRow_eq {col : String} (vals : List Int) (neg : Bool)
    (h : col ≠ "symbol" ∨ part.getColumn "symbol" = none) :
    inTestRow part col vals neg i = inTestScan part col vals neg i := by
  unfold inTestRow inTestScan
  by_cases hcol : col = "symbol"
  · have hnone : part.getColumn col = none := by
      rcases h with h | h
      · exact absurd hcol h
      · rwa [hcol]
    rw [if_pos hcol, hnone]
    rw [if_pos hcol]
  · rw [if_neg hcol]
    cases part.getColumn col with
    | none => simp [if_neg hcol]
    | some cv => rfl

/-- Where the scan decides, the test of the single row decides the same. -/
theorem evalExprSingleRow_of_scanRow (hq : e.noSubquery)
    (hsym : testsSymbolIn e = false ∨ part.getColumn "symbol" = none)
    (h : scanRow env part i e = .ok b) : evalExprSingleRow env part i e = .ok b := by
  induction e generalizing b with
  | and l r ihl ihr | or l r ihl ihr =>
    simp only [testsSymbolIn, Bool.or_eq_false_iff] at hsym
    simp only [Expr.noSubquery, Bool.and_eq_true] at hq
    simp only [scanRow, bind_eq_ok, pure_eq_ok] at h
    obtain ⟨a, ha, b, hb, rfl⟩ := h
    simp only [evalExprSingleRow, ihl hq.1 (hsym.imp_left And.left) ha,
      ihr hq.2 (hsym.imp_left And.right) hb]
    cases a <;> rfl
  | not l ih =>
    simp only [scanRow, bind_eq_ok, pure_eq_ok] at h
    obtain ⟨a, ha, rfl⟩ := h
    simp only [evalExprSingleRow, ih hq hsym ha]
    rfl
  | inList _ col vals neg =>
    rw [evalExprSingleRow, inTestRow_eq vals neg (by simpa [testsSymbolIn] using hsym)]
    exact h
  | scalarSubquery | inSubquery => cases hq
  | _ => exact h

end

end Zepto.Sql
