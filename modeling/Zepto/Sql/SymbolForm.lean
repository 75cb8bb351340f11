import Zepto.Sql.Meaning

/-!
# Conditions that are read as they are meant

The scan takes comparisons of the pseudo-column `symbol` for granted: the partitions were chosen
by one `symbol = x`, the first of the tree. `Expr.settled` conditions compare `symbol` nowhere and
have nothing that the scan does not resolve; `Expr.symbolForm` allows one `symbol = x` among their
conjuncts. Of these, the choice and the scan together say what is meant (`rowMeans_of_symbolForm`).
-/

namespace Zepto.Sql

open List Zepto.Lib Zepto.Storage

variable {Q : Type}

namespace Expr

/-- A conjunction with one conjunct in `one` and the others in `rest`. -/
def withOne (one rest : Expr Q → Bool) : Expr Q → Bool
  | .and l r => l.withOne one rest && rest r || rest l && r.withOne one rest
  | e => one e

def settled : Expr Q → Bool
  | .and l r | .or l r => l.settled && r.settled
  | .not l => l.settled
  | .compare c => c.column ≠ "symbol" && c.valueExpr.isNone && !c.isString
  | .between _ col _ _ _ | .isNull _ col _ => col ≠ "symbol"
  | .scalarSubquery .. | .inSubquery .. => false
  | _ => true

/-- `symbol = x` for a 32-bit number or a known name. -/
def symbolIs (dict : StringDictionary) : Expr Q → Bool
  | .compare c => c.column = "symbol" && c.op = .eq && c.lhsExpr.isNone && c.valueExpr.isNone &&
      !c.isFloat && if c.isString then 0 ≤ dict.find c.valueStr else 0 ≤ c.value && c.value < 2 ^ 32
  | _ => false

def symbolForm (dict : StringDictionary) (e : Expr Q) : Bool :=
  e.settled || e.withOne (symbolIs dict) settled

end Expr

theorem toSymbolId_eq_iff (p : Partition) {v : Int} (hlo : 0 ≤ v) (hhi : v < 2 ^ 32) :
    p.key.symbolId = toSymbolId v ↔ p.symbolValue = v := by
  have hv : (BitVec.ofInt 32 v).toNat = v := by
    rw [BitVec.toNat_ofInt]
    omega
  unfold Partition.symbolValue toSymbolId
  rw [← BitVec.toNat_inj]
  omega

theorem code_lt (dict : StringDictionary) (name : String) : dict.find name < 2 ^ 32 := by
  unfold StringDictionary.find
  split
  next code _ =>
    have := code.isLt
    omega
  · decide

section

variable {rd : Reading Q} {p : Partition} {i : Nat} {e : Expr Q} {b : Bool}

theorem findSymbol_of_settled (dict : StringDictionary) (h : e.settled) :
    findSymbol dict e = none := by
  induction e with
  | and l r ihl ihr | or l r ihl ihr =>
    rw [Expr.settled, Bool.and_eq_true] at h
    rw [findSymbol, ihl h.1, ihr h.2]
    rfl
  | not l ih => exact ih h
  | compare c =>
    simp only [Expr.settled, Bool.and_eq_true, decide_eq_true_eq] at h
    exact if_neg fun hc => h.1.1 hc.1
  | _ => rfl

/-- The scan of a settled condition is its meaning. -/
theorem rowMeans_of_settled (h : e.settled)
    (hin : testsSymbolIn e = false ∨ p.getColumn "symbol" = none)
    (hb : scanRow rd.env p i e = .ok b) : rowMeans rd p i e = b := by
  induction e generalizing b with
  | and l r ihl ihr | or l r ihl ihr =>
    rw [Expr.settled, Bool.and_eq_true] at h
    rw [testsSymbolIn, Bool.or_eq_false_iff] at hin
    obtain ⟨bl, hbl, br, hbr, rfl⟩ : ∃ bl, scanRow rd.env p i l = .ok bl ∧
        ∃ br, scanRow rd.env p i r = .ok br ∧ _ := by
      simpa only [scanRow, bind_eq_ok, pure_eq_ok] using hb
    rw [rowMeans, ihl h.1 (hin.imp_left And.left) hbl, ihr h.2 (hin.imp_left And.right) hbr]
  | not l ih =>
    obtain ⟨bl, hbl, rfl⟩ : ∃ bl, scanRow rd.env p i l = .ok bl ∧ _ := by
      simpa only [scanRow, bind_eq_ok, pure_eq_ok] using hb
    rw [rowMeans, ih h hin hbl]
  | compare c =>
    simp only [Expr.settled, Bool.and_eq_true, decide_eq_true_eq, Bool.not_eq_true',
      Option.isNone_iff_eq_none] at h
    obtain ⟨⟨hcol, hval⟩, hstr⟩ := h
    have hfilled : c.filled rd = c := by
      simp [Comparison.filled, hval, hstr]
    rw [rowMeans, compareMeans, if_neg fun hc => hcol hc.1, hfilled]
    rw [scanRow] at hb
    rw [hb, passes]
  | between t col lhs lo hi =>
    rw [rowMeans, if_neg fun hc => of_decide_eq_true h hc.1]
    rw [scanRow] at hb
    rw [hb, passes]
  | inList t col vals neg =>
    rw [scanRow, Except.ok.injEq] at hb
    rw [rowMeans, ← hb, inTestRow, inTestScan]
    split
    next hcol =>
      -- The partition's symbol comes first; the scan finds no stored column.
      subst hcol
      rw [hin.resolve_left (by simp [testsSymbolIn])]
    · rfl
  | isNull t col neg =>
    rw [scanRow, Except.ok.injEq] at hb
    rw [rowMeans, if_neg (of_decide_eq_true h), hb]
  | scalarSubquery | inSubquery => cases h
  | null | like => exact Except.ok.inj hb

/-- What the filter finds in `symbol = x` is what the comparison means. -/
theorem symbolIs_spec {rd : Reading Q} (h : e.symbolIs rd.dict) (p : Partition) (i : Nat) :
    ∃ v, findSymbol rd.dict e = some v ∧ 0 ≤ v ∧ v < 2 ^ 32 ∧
      rowMeans rd p i e = decide (p.symbolValue = v) ∧ scanRow rd.env p i e = .ok true := by
  cases e with
  | compare c =>
    simp only [Expr.symbolIs, Bool.and_eq_true, decide_eq_true_eq, Bool.not_eq_true',
      Option.isNone_iff_eq_none] at h
    obtain ⟨⟨⟨⟨⟨hcol, hop⟩, hlhs⟩, hval⟩, hfloat⟩, hrange⟩ := h
    cases hstr : c.isString with
    | true =>
      rw [hstr, if_pos rfl, decide_eq_true_eq] at hrange
      refine ⟨_, ?_, hrange, code_lt rd.dict c.valueStr, ?_⟩
      · simp [findSymbol, hcol, hop, hstr, hrange.not_gt]
      · simp [rowMeans, scanRow, compareTest, compareMeans, symbolCompares, Comparison.filled,
          CompareOp.test, hcol, hop, hlhs, hval, hfloat, hstr]
    | false =>
      simp only [hstr, Bool.false_eq_true, if_false, Bool.and_eq_true, decide_eq_true_eq] at hrange
      refine ⟨c.value, ?_, hrange.1, hrange.2, ?_⟩
      · simp [findSymbol, hcol, hop, hstr]
      · simp [rowMeans, scanRow, compareTest, compareMeans, symbolCompares, Comparison.filled,
          CompareOp.test, hcol, hop, hlhs, hval, hfloat, hstr]
  | _ => cases h

/-- Among settled conjuncts, the filter finds the one `symbol = x`. -/
theorem withOne_spec (h : e.withOne (Expr.symbolIs rd.dict) Expr.settled)
    (hin : testsSymbolIn e = false ∨ p.getColumn "symbol" = none)
    (hb : scanRow rd.env p i e = .ok b) : ∃ v, findSymbol rd.dict e = some v ∧ 0 ≤ v ∧ v < 2 ^ 32 ∧
      rowMeans rd p i e = (decide (p.symbolValue = v) && b) := by
  induction e generalizing b with
  | and l r ihl ihr =>
    obtain ⟨bl, hbl, br, hbr, rfl⟩ : ∃ bl, scanRow rd.env p i l = .ok bl ∧
        ∃ br, scanRow rd.env p i r = .ok br ∧ _ := by
      simpa only [scanRow, bind_eq_ok, pure_eq_ok] using hb
    rw [testsSymbolIn, Bool.or_eq_false_iff] at hin
    have hinl := hin.imp_left And.left
    have hinr := hin.imp_left And.right
    simp only [Expr.withOne, Bool.or_eq_true, Bool.and_eq_true] at h
    rcases h with ⟨hl, hr⟩ | ⟨hl, hr⟩
    · obtain ⟨v, hv, hlo, hhi, hmeans⟩ := ihl hl hinl hbl
      refine ⟨v, by rw [findSymbol, hv]; rfl, hlo, hhi, ?_⟩
      rw [rowMeans, hmeans, rowMeans_of_settled hr hinr hbr, Bool.and_assoc]
    · obtain ⟨v, hv, hlo, hhi, hmeans⟩ := ihr hr hinr hbr
      refine ⟨v, by rw [findSymbol, findSymbol_of_settled _ hl, hv]; rfl, hlo, hhi, ?_⟩
      rw [rowMeans, hmeans, rowMeans_of_settled hl hinl hbl, Bool.and_left_comm]
  | _ =>
    obtain ⟨v, hv, hlo, hhi, hmeans, hscan⟩ := symbolIs_spec h p i
    obtain rfl := Except.ok.inj (hscan.symm.trans hb)
    exact ⟨v, hv, hlo, hhi, by rw [hmeans, Bool.and_true]⟩

/-- The symbol filter and the scan together say what is meant. -/
theorem rowMeans_of_symbolForm (h : e.symbolForm rd.dict)
    (hin : testsSymbolIn e = false ∨ p.getColumn "symbol" = none)
    (hb : scanRow rd.env p i e = .ok b) :
    rowMeans rd p i e = (passesSymbolFilter rd.dict (some e) p && b) := by
  unfold passesSymbolFilter hasWhereSymbol
  rcases Bool.or_eq_true _ _ ▸ h with h | h
  · rw [rowMeans_of_settled h hin hb, Option.bind_some, findSymbol_of_settled _ h]
    rfl
  · obtain ⟨v, hv, hlo, hhi, hmeans⟩ := withOne_spec h hin hb
    rw [hmeans, Option.bind_some, hv]
    simp [toSymbolId_eq_iff p hlo hhi, hlo.not_gt]

end

/-- In a partition, the condition is of the form, and no row makes it throw. -/
structure Selectable (rd : Reading Q) (w : Option (Expr Q)) (p : Partition) : Prop where
  form : ∀ e, w = some e → e.symbolForm rd.dict
  symbolIn : ∀ e, w = some e → testsSymbolIn e = false ∨ p.getColumn "symbol" = none
  noThrow : WhereOk rd.env p w

theorem Selectable.selectedRows_eq {rd : Reading Q} {w : Option (Expr Q)} {p : Partition}
    (h : Selectable rd w p) : selectedRows rd.env rd.dict w p = matchingRows rd w p := by
  unfold selectedRows
  cases w with
  | none => exact (filter_eq_self.mpr fun _ _ => rfl).symm
  | some e =>
    have hrow : ∀ j < p.numRows, whereMeans rd p (some e) j =
        (passesSymbolFilter rd.dict (some e) p && passes (scanRow rd.env p j e)) := by
      intro j hj
      obtain ⟨b, hb⟩ := h.noThrow e rfl j hj
      rw [hb]
      exact rowMeans_of_symbolForm (h.form e rfl) (h.symbolIn e rfl) hb
    rw [matchingRows, filter_range_congr hrow]
    cases passesSymbolFilter rd.dict (some e) p with
    | true => simp [scanWhere, scanRows]
    | false => simp

/-- `symbol = 1 AND price = 7`. -/
def pricedSeven : Expr Q :=
  .and (.compare { column := "symbol", value := 1 }) (.compare { column := "price", value := 7 })

theorem pricedSeven_selectable (rd : Reading Q) (p : Partition) :
    Selectable rd (some pricedSeven) p where
  form := by
    rintro _ ⟨⟩
    rfl
  symbolIn := by
    rintro _ ⟨⟩
    exact .inl rfl
  noThrow := by
    rintro _ ⟨⟩ i -
    exact scanRow_total _ _ _ rfl

end Zepto.Sql
