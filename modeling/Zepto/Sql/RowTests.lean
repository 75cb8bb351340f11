import Mathlib.Data.List.Forall2
import Zepto.Sql.PlainSelect

/-!
# Row tests

The vectorised `WHERE` selects the rows the test of a single row accepts, and the table `LIKE`
fills is that of the splits of the text along the pattern: `Splits` is the meaning of a pattern,
`IsRow` says what one row of the table holds.
-/

namespace Zepto.Sql

open List Zepto.Lib Zepto.Storage

variable {Q : Type}

/-- Without a stored column named `symbol`, the scan returns in ascending order the rows the test
of a single row accepts; conditions on columns never throw. -/
theorem evalExpr_singleRow (env : Env) (part : Partition) (n : Nat) (e : Expr Q)
    (hsym : part.getColumn "symbol" = none) (hq : e.noSubquery = true) :
    (∀ rows, evalExpr env part n e = .ok rows → rows.Pairwise (· < ·) ∧
      ∀ i < n, (i ∈ rows ↔ evalExprSingleRow env part i e = .ok true)) ∧
    (e.onColumns = true → ∃ rows, evalExpr env part n e = .ok rows) := by
  refine ⟨fun rows h => ?_, fun h => ?_⟩
  · obtain ⟨hok, rfl⟩ := evalExpr_eq_ok.mp h
    refine ⟨pairwise_lt_range.filter _, fun i hi => ?_⟩
    obtain ⟨b, hb⟩ := hok i hi
    rw [evalExprSingleRow_of_scanRow hq (.inr hsym) hb]
    simp [scanRows, hi, hb, passes]
  · exact ⟨_, evalExpr_eq_ok.mpr ⟨fun i _ => scanRow_total env part i h, rfl⟩⟩

/-- `WHERE NOT (price > 0 OR volume IS NULL)` on a row without a volume. -/
theorem evalExpr_singleRow_price :
    let e : Expr Unit := .not (.or (.compare { column := "price", op := .gt })
      (.isNull "" "volume" false))
    evalExpr { now := 0 } onePrice 1 e = .ok [] ∧
      (0 ∈ ([] : List Nat) ↔ evalExprSingleRow { now := 0 } onePrice 0 e = .ok true) := by
  intro e
  have h : evalExpr { now := 0 } onePrice 1 e = .ok [] := rfl
  exact ⟨h, ((evalExpr_singleRow { now := 0 } onePrice 1 e rfl rfl).1 [] h).2 0 Nat.one_pos⟩

/-! ## Patterns -/

def StandsFor (p : Char) (w : List Char) : Prop :=
  if p = '%' then True else if p = '_' then w.length = 1 else w = [p]

def Splits (pat text : List Char) : Prop :=
  ∃ ws, Forall₂ StandsFor pat ws ∧ text = ws.flatten

section

variable {p c : Char} {q t : List Char}

variable {left : Bool} {row : List Bool} {pat : List Char}

theorem splits_nil : Splits [] t ↔ t = [] := by
  simp [Splits]

theorem splits_cons : Splits (p :: q) t ↔ ∃ w b, StandsFor p w ∧ Splits q b ∧ t = w ++ b := by
  simp only [Splits, forall₂_cons_left_iff]
  constructor
  · rintro ⟨_, ⟨w, ws, hw, hws, rfl⟩, rfl⟩
    exact ⟨w, ws.flatten, hw, ⟨ws, hws, rfl⟩, rfl⟩
  · rintro ⟨w, _, hw, ⟨ws, hws, rfl⟩, rfl⟩
    exact ⟨w :: ws, ⟨w, ws, hw, hws, rfl⟩, rfl⟩

theorem splits_snoc : Splits (q ++ [p]) t ↔ ∃ a w, Splits q a ∧ StandsFor p w ∧ t = a ++ w := by
  induction q generalizing t with
  | nil => simp [splits_cons, splits_nil]
  | cons d q ih =>
    simp only [cons_append, splits_cons, ih]
    constructor
    · rintro ⟨v, _, hv, ⟨a, w, ha, hw, rfl⟩, rfl⟩
      exact ⟨v ++ a, w, ⟨v, a, hv, ha, rfl⟩, hw, (append_assoc ..).symm⟩
    · rintro ⟨_, w, ⟨v, a, hv, ha, rfl⟩, hw, rfl⟩
      exact ⟨v, a ++ w, hv, ⟨a, w, ha, hw, rfl⟩, append_assoc ..⟩

theorem splits_snoc_nil : Splits (q ++ [p]) [] ↔ p = '%' ∧ Splits q [] := by
  simp only [splits_snoc, nil_eq, append_eq_nil_iff, StandsFor]
  constructor
  · rintro ⟨_, _, ha, hw, rfl, rfl⟩
    refine ⟨?_, ha⟩
    by_contra hp
    rw [if_neg hp] at hw
    split at hw <;> cases hw
  · rintro ⟨rfl, hq⟩
    exact ⟨[], [], hq, trivial, rfl, rfl⟩

theorem splits_snoc_percent :
    Splits (q ++ ['%']) (t ++ [c]) ↔ Splits (q ++ ['%']) t ∨ Splits q (t ++ [c]) := by
  simp only [splits_snoc, StandsFor, if_true, true_and]
  constructor
  · rintro ⟨a, w, ha, h⟩
    rcases eq_nil_or_concat w with rfl | ⟨w, d, rfl⟩
    · exact .inr (by simpa [h] using ha)
    · rw [concat_eq_append, ← append_assoc] at h
      exact .inl ⟨a, w, ha, (append_inj' h rfl).1⟩
  · rintro (⟨a, w, ha, rfl⟩ | h)
    · exact ⟨a, w ++ [c], ha, append_assoc ..⟩
    · exact ⟨_, [], h, (append_nil _).symm⟩

theorem splits_snoc_one (hp : p ≠ '%') :
    Splits (q ++ [p]) (t ++ [c]) ↔ (p = '_' ∨ p = c) ∧ Splits q t := by
  simp only [splits_snoc, StandsFor, if_neg hp]
  constructor
  · rintro ⟨a, w, ha, hw, h⟩
    have hlen : w.length = 1 := by split at hw <;> simp [hw]
    obtain ⟨d, rfl⟩ := length_eq_one_iff.mp hlen
    obtain ⟨rfl, hd⟩ := append_inj' h rfl
    cases hd
    refine ⟨?_, ha⟩
    split at hw
    · exact .inl ‹_›
    · exact .inr (singleton_inj.mp hw).symm
  · rintro ⟨hpc, hq⟩
    refine ⟨t, [c], hq, ?_, rfl⟩
    split
    · rfl
    · rw [hpc.resolve_left ‹_›]

/-! ## The table of `LIKE` -/

/-- `q` and its extensions by the beginnings of the pattern. -/
def beginnings (q : List Char) : List Char → List (List Char)
  | [] => [q]
  | p :: pat => q :: beginnings (q ++ [p]) pat

theorem beginnings_head (q pat : List Char) : ∃ qs, beginnings q pat = q :: qs := by
  cases pat <;> exact ⟨_, rfl⟩

/-- The row of a text: whether it splits along each of the beginnings. -/
def IsRow (t q : List Char) (row : List Bool) (pat : List Char) : Prop :=
  Forall₂ (fun b q => b = true ↔ Splits q t) row (beginnings q pat)

theorem isRow_row0 (pat : List Char) (h : left ↔ Splits q []) :
    IsRow [] q (left :: likeRow0 left pat) pat := by
  induction pat generalizing q left with
  | nil => exact .cons h .nil
  | cons p pat ih =>
    refine .cons h (ih ?_)
    rw [splits_snoc_nil, Bool.and_eq_true, decide_eq_true_iff, h, and_comm]

theorem isRow_row (hrow : IsRow t q row pat) (h : left ↔ Splits q (t ++ [c])) :
    IsRow (t ++ [c]) q (left :: likeRow c left row pat) pat := by
  induction pat generalizing q left row with
  | nil =>
    cases hrow with
    | cons _ hnil => exact .cons h (by cases hnil; exact .nil)
  | cons p pat ih =>
    obtain ⟨up, rest, hup, hrest, rfl⟩ := forall₂_cons_right_iff.mp hrow
    obtain ⟨qs, hqs⟩ := beginnings_head (q ++ [p]) pat
    obtain ⟨next, prev, hnext, -, rfl⟩ := forall₂_cons_right_iff.mp (hqs ▸ hrest)
    refine .cons h (ih hrest ?_)
    by_cases hp : p = '%'
    · subst hp
      rw [if_pos rfl, Bool.or_eq_true, hnext, h, splits_snoc_percent]
    · rw [if_neg hp, splits_snoc_one hp, Bool.and_eq_true, Bool.or_eq_true, hup]
      simp

theorem isRow_last (h : IsRow t q row pat) : row.getLastD false ↔ Splits (q ++ pat) t := by
  induction pat generalizing q row with
  | nil =>
    obtain ⟨b, _, hb, hnil, rfl⟩ := forall₂_cons_right_iff.mp h
    cases hnil
    simpa using hb
  | cons p pat ih =>
    obtain ⟨b, rest, -, hrest, rfl⟩ := forall₂_cons_right_iff.mp h
    obtain ⟨qs, hqs⟩ := beginnings_head (q ++ [p]) pat
    obtain ⟨next, prev, -, -, rfl⟩ := forall₂_cons_right_iff.mp (hqs ▸ hrest)
    simpa using ih hrest

/-- `like_match` decides whether the text splits along the pattern. -/
theorem likeMatch_iff (pat text : List Char) : likeMatch pat text ↔ Splits pat text := by
  have hfold : ∀ (s t : List Char) (row : List Bool), IsRow t [] row pat →
      IsRow (t ++ s) [] (s.foldl (fun row c => false :: likeRow c false row pat) row) pat := by
    intro s
    induction s with
    | nil => intro t row h; simpa using h
    | cons c s ih =>
      intro t row h
      have hempty : false ↔ Splits [] (t ++ [c]) := by simp [splits_nil]
      have hstep := ih (t ++ [c]) _ (isRow_row h hempty)
      rwa [append_assoc] at hstep
  exact isRow_last (hfold text [] _ (isRow_row0 pat (by simp [splits_nil])))

end

/-- The value whose decimal text a `LIKE` looks at. -/
def likeOperand (part : Partition) (col : String) (i : Nat) : Int :=
  if col = "symbol" then part.symbolValue
  else match part.getColumn col with
    | some cv => cv.readI64 part.mem i
    | none => 0

/-- A `LIKE` holds in scan and single-row test where the text of the value splits along the pattern,
a `NOT LIKE` where it does not. -/
theorem like_splits (env : Env) (part : Partition) (n : Nat) (t col pat : String) (neg : Bool) :
    let like : Expr Q := .like t col pat neg
    let holds (i : Nat) := Splits pat.toList (toString (likeOperand part col i)).toList ↔
      neg = false
    (∃ rows, evalExpr env part n like = .ok rows ∧ ∀ i, i ∈ rows ↔ i < n ∧ holds i) ∧
      ∀ i, evalExprSingleRow env part i like = .ok true ↔ holds i := by
  have htest : ∀ i, likeTest part col pat neg i = true ↔
      (Splits pat.toList (toString (likeOperand part col i)).toList ↔ neg = false) := by
    intro i
    rw [← likeMatch_iff]
    change (likeMatch pat.toList (toString (likeOperand part col i)).toList != neg) = true ↔ _
    cases neg <;> simp
  refine ⟨⟨_, rfl, fun i => ?_⟩, fun i => ?_⟩
  · rw [mem_filter, mem_range, htest]
  · rw [evalExprSingleRow, Except.ok.injEq, htest]

end Zepto.Sql
