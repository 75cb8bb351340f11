import Mathlib.Data.List.TakeWhile
import Zepto.Sql.GroupFold
import Zepto.Sql.PlainSelect
import Zepto.Storage.Ingest

/-!
# The paths of a `GROUP BY`

For a single key `exec_group_agg` has two shortcuts: `symbol` is read off the partitions, any other
key goes through an array of slots with the last key at hand. Against the general path, the first
shows symbols without a selected row, the second loses the rows before the first key that is not
`INT64_MIN` and reads the symbol where the general path reads 0. As long as the keys have slots,
there is no other difference (`groupPaths_iff`).
-/

namespace Zepto.Sql

open List Zepto.Lib Zepto.Storage

variable {Q : Type}

/-- `COUNT`, `SUM`, `MIN`, `MAX`, `FIRST` or `LAST` of a column. -/
structure ColumnAgg (col : SelectExpr Q) : Prop where
  agg : col.agg ∈ [.count, .sum, .min, .max, .first, .last]
  caseWhen : col.caseWhen = none
  arithExpr : col.arithExpr = none

/-- The general path of `exec_group_agg`, on any keys. -/
def generalGroupAgg (ho : HashOrder) (env : Env) (stmt : SelectStmt Q) (keys : List GroupKey)
    (parts : List Partition) : Except String QueryResult := do
  let (g, scanned) ← parts.foldlM
    (groupByMulti env multiLoop stmt
      (fun part idx => keys.map fun key => bucketed key (multiKey key part idx))
      (sampledRows env stmt)) (∅, 0)
  pure (groupResult stmt groupAggName keys
    ((ho.order g.entries).map fun e => groupRow 0 stmt e.1 e.2) scanned)

def SelectStmt.selecting (stmt : SelectStmt Q) (columns : List (SelectExpr Q)) : SelectStmt Q :=
  { stmt with columns }

def fastKey (key : GroupKey) (r : Partition × Nat) : Int := bucketed key (singleKey key r.1 r.2)

def generalKey (key : GroupKey) (r : Partition × Nat) : Int := bucketed key (multiKey key r.1 r.2)

def GroupKey.isSymbol (key : GroupKey) : Prop :=
  key.column = "symbol" ∧ key.xbarBucket = 0 ∧ key.dateTruncBucket = 0

/-- Whatever the aggregates, both paths return the same rows, one for each key of a selected row. -/
def PathsAgree (ho : HashOrder) (env : Env) (stmt : SelectStmt Q) (key : GroupKey)
    (parts : List Partition) (sel : Partition → List Nat) : Prop :=
  ∀ cols : List (SelectExpr Q), (∀ col ∈ cols, ColumnAgg col) →
    ∃ r r', execGroupAgg ho env (stmt.selecting cols) parts = .ok r ∧
      generalGroupAgg ho env (stmt.selecting cols) [key] parts = .ok r' ∧
      r.rows.Perm r'.rows ∧
      (r.rows.map fun row => row.headD 0).Perm ((tagged parts sel).map (generalKey key)).dedup

/-- Every symbol has a selected row; the first selected row has another key than `INT64_MIN`; the
key column is there, or is the symbol. -/
structure PathSafe (key : GroupKey) (parts : List Partition) (sel : Partition → List Nat) :
    Prop where
  selected : key.isSymbol → SymbolsSelected parts sel
  first : ¬key.isSymbol → ∀ r ∈ (tagged parts sel).head?, fastKey key r ≠ int64Min
  stored : ∀ r ∈ tagged parts sel, key.column = "symbol" ∨
    (colWord r.1 key.column r.2).isSome = true ∨
    bucketed key r.1.symbolValue = bucketed key 0

/-! ## Keys -/

variable {key : GroupKey}

theorem fastKey_eq_iff {r : Partition × Nat} :
    fastKey key r = generalKey key r ↔ key.column = "symbol" ∨ (colWord r.1 key.column r.2).isSome ∨
      bucketed key r.1.symbolValue = bucketed key 0 := by
  unfold fastKey generalKey singleKey multiKey
  by_cases hcol : key.column = "symbol"
  · simp [hcol]
  · cases colWord r.1 key.column r.2 <;> simp [hcol]

theorem generalKey_of_ne {r : Partition × Nat}
    (h : fastKey key r ≠ generalKey key r) : generalKey key r = bucketed key 0 := by
  rw [Ne, fastKey_eq_iff, not_or, not_or, Option.not_isSome_iff_eq_none] at h
  simp [generalKey, multiKey, h.1, h.2.1]

/-- Functions that differ only where the second is `c` agree on a list if their values do up to
order. -/
theorem eq_of_perm_map {α : Type} {f g : α → Int} {c : Int} {l : List α}
    (h : ∀ a, f a ≠ g a → g a = c) (hperm : (l.map f).Perm (l.map g)) : ∀ a ∈ l, f a = g a := by
  have hsub : (l.filter (f · = c)).Sublist (l.filter (g · = c)) := by
    refine monotone_filter_right l fun a ha => ?_
    by_cases hfg : f a = g a
    · rwa [← hfg]
    · simpa using h a hfg
  have hcount (f : α → Int) : (l.filter (f · = c)).length = (l.map f).count c := by
    rw [count, countP_map, countP_eq_length_filter]
    rfl
  have heq := hsub.eq_of_length (by rw [hcount, hcount, hperm.count_eq])
  intro a ha
  by_contra hfg
  have hc := h a hfg
  have hmem : a ∈ l.filter (f · = c) := heq ▸ mem_filter.mpr ⟨ha, by simpa using hc⟩
  exact hfg ((by simpa using (mem_filter.mp hmem).2 : f a = c).trans hc.symm)

section

variable {env : Env} {stmt : SelectStmt Q} {loop loop' : GroupLoop}
  {rows : List (Partition × Nat)}

/-! ## Items that read a column -/

def columnInput (r : Partition × Nat) (col : SelectExpr Q) : GroupInput where
  value := if col.agg.evaluates then (colWord r.1 col.column r.2).getD 0 else 0
  data := colWord r.1 col.column r.2
  volume := colWord r.1 col.aggArg2 r.2

theorem ColumnAgg.groupInput_eq {col : SelectExpr Q} (h : ColumnAgg col) (r : Partition × Nat) :
    groupInput env loop r.1 r.2 col = .ok (columnInput r col) := by
  unfold groupInput columnInput
  rw [h.caseWhen, h.arithExpr]
  cases col.agg.evaluates <;> rfl

section

variable (h : ∀ col ∈ stmt.columns, ColumnAgg col)

include h

theorem groupInputs_eq (r : Partition × Nat) :
    groupInputs env loop stmt r.1 r.2 = .ok (stmt.columns.map (columnInput r)) :=
  mapM_ok fun col hcol => (h col hcol).groupInput_eq r

theorem inputsAt_eq (r : Partition × Nat) :
    inputsAt env loop stmt r = stmt.columns.map (columnInput r) := by
  rw [inputsAt, groupInputs_eq h]

theorem stepStates_eq (states : List GroupState) (xs : List GroupInput) :
    stepStates loop stmt states xs = stepStates loop' stmt states xs := by
  rw [stepStates, stepStates]
  generalize stmt.columns = cols at h
  induction cols generalizing states xs with
  | nil => rfl
  | cons col cols ih =>
    rw [forall_mem_cons] at h
    have hstep (s : GroupState) (x : GroupInput) : .step loop col s x = s.step loop' col x := by
      have hagg := h.1.agg
      unfold GroupState.step
      cases heq : col.agg with
      | xbar => simp [heq] at hagg
      | _ => rfl
    cases states with
    | nil => rfl
    | cons s states =>
      cases xs with
      | nil => rfl
      | cons x xs => rw [zipThree, zipThree, hstep, ih _ _ h.2]

theorem rowGroups_congr {key key' : Partition × Nat → Int} (hkey : ∀ r ∈ rows, key r = key' r) :
    rowGroups env loop stmt key rows = rowGroups env loop' stmt key' rows := by
  rw [← foldl_groupStep, ← foldl_groupStep]
  apply foldl_ext
  intro g r hr
  rw [hkey r hr, inputsAt_eq h, inputsAt_eq h]
  exact congrArg (g.insert (key' r)) (stepStates_eq h _ _)

end

theorem lookup_rowGroups_singleton (key : Partition × Nat → Int) (ks : List Int) :
    (rowGroups env loop stmt (fun r => [key r]) rows).lookup ks = match ks with
      | [k] => (rowGroups env loop stmt key rows).lookup k
      | _ => none := by
  simp only [rowGroups, lookup_groupFold, valuesOf, filter_map, map_map]
  rcases ks with _ | ⟨k, _ | ⟨k', ks⟩⟩
  · simp [advance]
  · simp [Function.comp_def]
  · simp [advance]

theorem groupRows_singleton (key : Partition × Nat → Int) :
    ((rowGroups env loop stmt (fun r => [key r]) rows).entries.map
        fun e => groupRow 0 stmt e.1 e.2).Perm
      ((rowGroups env loop stmt key rows).entries.map fun e => groupRow 0 stmt [e.1] e.2) := by
  have hperm : (rowGroups env loop stmt (fun r => [key r]) rows).entries.Perm
      ((rowGroups env loop stmt key rows).entries.map fun e => ⟨[e.1], e.2⟩) := by
    refine (perm_ext_iff_of_nodup (AList.nodupKeys _).nodup
      ((AList.nodupKeys _).nodup.map ?_)).mpr ?_
    · rintro ⟨k, s⟩ ⟨k', s'⟩ h
      simpa using h
    rintro ⟨ks, s⟩
    rw [← AList.mem_lookup_iff, lookup_rowGroups_singleton, mem_map]
    constructor
    · intro h
      split at h
      · exact ⟨⟨_, s⟩, AList.mem_lookup_iff.mp h, rfl⟩
      · cases h
    · rintro ⟨⟨k, s'⟩, hmem, h⟩
      cases h
      exact AList.mem_lookup_iff.mpr hmem
  refine (hperm.map _).trans ?_
  rw [map_map]
  rfl

/-! ## Counts tell the keys -/

/-- `COUNT(*)`. -/
def countStar : SelectExpr Q := { agg := .count, column := "*" }

theorem columnAgg_countStar : ∀ col ∈ [(countStar : SelectExpr Q)], ColumnAgg col := by
  intro col hcol
  obtain rfl := mem_singleton.mp hcol
  exact ⟨mem_cons_self, rfl, rfl⟩

def countRows (ks : List Int) : List (List Int) := ks.dedup.map fun k => [k, ks.count k]

theorem perm_of_countRows {ks ks' : List Int} (h : (countRows ks).Perm (countRows ks')) :
    ks.Perm ks' := by
  have hmem (k : Int) (n : Nat) : (k ∈ ks ∧ ks.count k = n) ↔ (k ∈ ks' ∧ ks'.count k = n) := by
    simpa [countRows] using h.mem_iff (a := [k, n])
  rw [perm_iff_count]
  intro k
  by_cases hk : k ∈ ks
  · exact ((hmem k _).mp ⟨hk, rfl⟩).2.symm
  · rw [count_eq_zero_of_not_mem hk,
      count_eq_zero_of_not_mem fun hk' => hk ((hmem k _).mpr ⟨hk', rfl⟩).1]

theorem lookup_counts (hcols : stmt.columns = [countStar]) (key : Partition × Nat → Int)
    {k : Int} {states : List GroupState}
    (h : (rowGroups env loop stmt key rows).lookup k = some states) :
    states = [{ count := (rows.map key).count k }] := by
  induction rows using reverseRecOn generalizing states with
  | nil => cases h
  | append_singleton l r ih =>
    have hin : inputsAt env loop stmt r = [columnInput r (countStar : SelectExpr Q)] := by
      rw [inputsAt_eq (by rw [hcols]; exact columnAgg_countStar), hcols]
      rfl
    rw [rowGroups_append, hin, groupStep] at h
    by_cases hk : k = key r
    · subst hk
      rw [AList.lookup_insert, Option.some.injEq] at h
      subst h
      cases hl : (rowGroups env loop stmt key l).lookup (key r) with
      | some s =>
        rw [ih hl]
        simp [rowAcc, stepStates, hcols, zipThree, GroupState.step, countStar]
      | none =>
        have hnot : key r ∉ l.map key := fun hmem => by
          have := (keys_rowGroups env loop stmt key l).mem_iff.mpr (mem_dedup.mpr hmem)
          exact absurd hl (AList.lookup_eq_none.not.mpr (not_not.mpr this))
        simp [count_eq_zero_of_not_mem hnot, rowAcc, newStates, stepStates, hcols, zipThree,
          GroupState.step, countStar]
    · rw [AList.lookup_insert_ne hk] at h
      simp [ih h, Ne.symm hk]

theorem groupRows_counts (hcols : stmt.columns = [countStar]) (key : Partition × Nat → Int) :
    ((rowGroups env loop stmt key rows).entries.map fun e => groupRow 0 stmt [e.1] e.2).Perm
      (countRows (rows.map key)) := by
  refine .trans (.of_eq ?_) ((keys_rowGroups env loop stmt key rows).map _)
  rw [AList.keys, keys, map_map]
  refine map_congr_left fun e he => ?_
  rw [lookup_counts hcols key (AList.mem_lookup_iff.mpr he)]
  simp [groupRow, hcols, countStar, GroupState.result]

end

/-! ## The paths -/

structure OnlyGrouped (stmt : SelectStmt Q) (key : GroupKey) : Prop where
  groupBy : stmt.groupBy = some [key]
  having : stmt.having = none
  orderBy : stmt.orderBy = none
  limit : stmt.limit = none

theorem OnlyGrouped.rows {stmt : SelectStmt Q} (h : OnlyGrouped stmt key)
    (name : SelectExpr Q → String) (keys : List GroupKey) (rows : List (List Int)) (n : Nat) :
    (groupResult stmt name keys rows n).rows = rows := by
  simp [groupResult, applyHaving, applyOrderBy, applyGroupLimit, h.having, h.orderBy, h.limit]

section

variable (ho : HashOrder) {env : Env} {stmt : SelectStmt Q} {key : GroupKey} {n : Nat}
  {parts : List Partition}

theorem execGroupAgg_symbol {g : Groups Int} (hgroup : stmt.groupBy = some [key])
    (hsymbol : key.isSymbol) (hn : parts.foldlM (groupBySymbol env stmt) (∅, 0) = .ok (g, n)) :
    execGroupAgg ho env stmt parts = .ok (groupResult stmt aggName [key]
      ((ho.order g.entries).map fun e => groupRow 0 stmt [e.1] e.2) n) := by
  rw [execGroupAgg, hgroup]
  simp only [Option.getD_some]
  rw [if_pos (show _ ∧ _ from hsymbol), hn]
  rfl

theorem execGroupAgg_single {c : SlotGroups} (hgroup : stmt.groupBy = some [key])
    (hsymbol : ¬key.isSymbol)
    (hn : parts.foldlM (groupBySingle env stmt
      (fun part idx => bucketed key (singleKey key part idx)) (sampledRows env stmt)) ({}, 0) =
      .ok (c, n)) :
    execGroupAgg ho env stmt parts = .ok (groupResult stmt groupAggName [key]
      ((ho.order (c.groups stmt).entries).map fun e => groupRow 0 stmt [e.1] e.2) n) := by
  rw [execGroupAgg, hgroup]
  simp only [Option.getD_some]
  rw [if_neg (show ¬(_ ∧ _) from hsymbol), hn]
  rfl

end

section

variable (ho : HashOrder) {env : Env} {stmt : SelectStmt Q} {key : GroupKey}
  {parts : List Partition} {sel : Partition → List Nat} (h : OnlyGrouped stmt key)
  (hcols : ∀ col ∈ stmt.columns, ColumnAgg col)
  (hsel : ∀ p ∈ parts, ∃ n, sampledRows env stmt p = .ok (sel p, n))

include h hcols hsel

theorem general_rows : ∃ r, generalGroupAgg ho env stmt [key] parts = .ok r ∧
    r.rows.Perm ((rowGroups env multiLoop stmt (generalKey key) (tagged parts sel)).entries.map
      fun e => groupRow 0 stmt [e.1] e.2) := by
  obtain ⟨n, hn⟩ := groupByMulti_eq hsel fun r _ => ⟨_, groupInputs_eq hcols r⟩
  rw [generalGroupAgg, hn]
  refine ⟨_, rfl, ?_⟩
  rw [h.rows]
  exact ((ho.perm _).map _).trans (groupRows_singleton (generalKey key))

theorem symbol_rows (hsymbol : key.isSymbol) : ∃ r, execGroupAgg ho env stmt parts = .ok r ∧
    r.rows.Perm ((parts.foldl (symbolStep env stmt sel) ∅).entries.map
      fun e => groupRow 0 stmt [e.1] e.2) := by
  obtain ⟨n, hn⟩ := groupBySymbol_eq hsel fun r _ => ⟨_, groupInputs_eq hcols r⟩
  refine ⟨_, execGroupAgg_symbol ho h.groupBy hsymbol hn, ?_⟩
  rw [h.rows]
  exact (ho.perm _).map _

theorem single_rows (hsymbol : ¬key.isSymbol)
    (hslots : ((tagged parts sel).map (fastKey key)).dedup.length ≤ 2 ^ 32) :
    ∃ r, execGroupAgg ho env stmt parts = .ok r ∧
      r.rows.Perm ((rowGroups env singleLoop stmt (fastKey key)
        ((tagged parts sel).dropWhile fun r => fastKey key r = int64Min)).entries.map
          fun e => groupRow 0 stmt [e.1] e.2) := by
  obtain ⟨c, n, hn, hc⟩ := groupBySingle_eq hsel (fun r _ => ⟨_, groupInputs_eq hcols r⟩)
    (fun part idx => bucketed key (singleKey key part idx)) hslots
  refine ⟨_, execGroupAgg_single ho h.groupBy hsymbol hn, ?_⟩
  rw [h.rows]
  exact ((ho.perm _).trans (perm_entries_of_lookup hc)).map _

end

theorem dropWhile_eq_self {α : Type} {p : α → Bool} {l : List α} :
    l.dropWhile p = l ↔ ∀ a ∈ l.head?, p a = false := by
  cases l <;> simp

section

variable (ho : HashOrder) (env : Env) (stmt : SelectStmt Q) (key : GroupKey)
  (parts : List Partition) (sel : Partition → List Nat)

/-- The counts of the rows tell whether the paths agree. -/
theorem PathsAgree.safe {ho : HashOrder} {env : Env} {stmt : SelectStmt Q} {key : GroupKey}
    {parts : List Partition} {sel : Partition → List Nat} (h : OnlyGrouped stmt key)
    (hsel : ∀ p ∈ parts, ∃ n, sampledRows env stmt p = .ok (sel p, n))
    (hslots : ¬key.isSymbol → ((tagged parts sel).map (fastKey key)).dedup.length ≤ 2 ^ 32)
    (hagree : PathsAgree ho env stmt key parts sel) : PathSafe key parts sel := by
  have honly : OnlyGrouped (stmt.selecting [countStar]) key := ⟨h.1, h.2, h.3, h.4⟩
  have hok : ∀ col ∈ (stmt.selecting [countStar]).columns, ColumnAgg col := columnAgg_countStar
  obtain ⟨r, r', hr, hr', hperm, -⟩ := hagree [countStar] columnAgg_countStar
  obtain ⟨_, hq', hrows'⟩ := general_rows ho honly hok hsel
  cases hr'.symm.trans hq'
  have hgeneral := hperm.trans (hrows'.trans (groupRows_counts rfl (generalKey key)))
  by_cases hsymbol : key.isSymbol
  · refine ⟨fun _ p hp => ?_, fun hnot => absurd hsymbol hnot, fun _ _ => .inl hsymbol.1⟩
    obtain ⟨_, hq, hrows⟩ := symbol_rows ho honly hok hsel hsymbol
    cases hr.symm.trans hq
    by_contra hnone
    have hvalues : valuesOf p.symbolValue
        (symbolRows env (stmt.selecting [countStar]) (tagged parts sel)) = [] := by
      refine valuesOf_eq_nil fun x hx hk => hnone ?_
      obtain ⟨y, hy, rfl⟩ := mem_map.mp hx
      exact ⟨y, hy, hk⟩
    have hmem : [p.symbolValue, 0] ∈ r.rows := by
      rw [hrows.mem_iff, mem_map]
      refine ⟨⟨p.symbolValue, [{}]⟩, AList.mem_lookup_iff.mp ?_, rfl⟩
      rw [lookup_foldl_symbolStep, if_pos (mem_map_of_mem hp), hvalues]
      rfl
    rw [hgeneral.mem_iff] at hmem
    simp only [countRows, mem_map, mem_dedup, cons.injEq] at hmem
    obtain ⟨k, hk, rfl, hzero⟩ := hmem
    exact absurd (count_pos_iff.mpr (mem_map.mpr hk)) (by omega)
  · obtain ⟨_, hq, hrows⟩ := single_rows ho honly hok hsel hsymbol (hslots hsymbol)
    cases hr.symm.trans hq
    have hkeys := perm_of_countRows
      ((groupRows_counts rfl (fastKey key)).symm.trans (hrows.symm.trans hgeneral))
    have hall : ((tagged parts sel).dropWhile fun r => fastKey key r = int64Min) =
        tagged parts sel :=
      (dropWhile_suffix _).eq_of_length (by simpa using hkeys.length_eq)
    refine ⟨fun hs => absurd hs hsymbol, fun _ r hr => ?_, fun r hr => ?_⟩
    · simpa using dropWhile_eq_self.mp hall r hr
    · rw [hall] at hkeys
      exact fastKey_eq_iff.mp (eq_of_perm_map (fun _ => generalKey_of_ne) hkeys r hr)

/-- Where `uint32_t` slots suffice for the keys, the shortcuts return the rows of the general path
just when the symbols have rows, the first key is not `INT64_MIN` and the key column is there. -/
theorem groupPaths_iff (h : OnlyGrouped stmt key)
    (hsel : ∀ p ∈ parts, ∃ n, sampledRows env stmt p = .ok (sel p, n))
    (hslots : ¬key.isSymbol → ((tagged parts sel).map (fastKey key)).dedup.length ≤ 2 ^ 32) :
    PathsAgree ho env stmt key parts sel ↔ PathSafe key parts sel := by
  refine ⟨PathsAgree.safe h hsel hslots, ?_⟩
  rintro ⟨hselected, hfirst, hstored⟩ cols hcols
  have honly : OnlyGrouped (stmt.selecting cols) key := ⟨h.1, h.2, h.3, h.4⟩
  have hok : ∀ col ∈ (stmt.selecting cols).columns, ColumnAgg col := hcols
  obtain ⟨r', hr', hrows'⟩ := general_rows ho honly hok hsel
  have hsame (loop : GroupLoop) :
      rowGroups env loop (stmt.selecting cols) (fastKey key) (tagged parts sel) =
        rowGroups env multiLoop (stmt.selecting cols) (generalKey key) (tagged parts sel) :=
    rowGroups_congr hok fun r hr => fastKey_eq_iff.mpr (hstored r hr)
  have hfast : ∃ r, execGroupAgg ho env (stmt.selecting cols) parts = .ok r ∧
      r.rows.Perm ((rowGroups env multiLoop (stmt.selecting cols) (generalKey key)
        (tagged parts sel)).entries.map fun e => groupRow 0 (stmt.selecting cols) [e.1] e.2) := by
    by_cases hsymbol : key.isSymbol
    · obtain ⟨r, hr, hrows⟩ := symbol_rows ho honly hok hsel hsymbol
      refine ⟨r, hr, hrows.trans (.map _ (perm_entries_of_lookup fun k => ?_))⟩
      have hkey : fastKey key = fun r => r.1.symbolValue := by
        funext r
        simp [fastKey, bucketed, singleKey, hsymbol.1, hsymbol.2.1, hsymbol.2.2, xbarFloor]
      rw [lookup_symbolGroups (hselected hsymbol), ← hsame symbolLoop, hkey]
    · obtain ⟨r, hr, hrows⟩ := single_rows ho honly hok hsel hsymbol (hslots hsymbol)
      rw [dropWhile_eq_self.mpr fun r hr => by simpa using hfirst hsymbol r hr] at hrows
      exact ⟨r, hr, hsame singleLoop ▸ hrows⟩
  obtain ⟨r, hr, hrows⟩ := hfast
  refine ⟨r, r', hr, hr', hrows.trans hrows'.symm, (hrows.map _).trans ?_⟩
  rw [map_map]
  exact keys_rowGroups env multiLoop _ (generalKey key) _

end

/-- `SELECT symbol, COUNT(*) FROM trades WHERE price op 0 GROUP BY symbol`. -/
def countBySymbol (op : CompareOp) : SelectStmt Unit where
  columns := [countStar]
  fromTable := "trades"
  whereClause := some (.compare { column := "price", op })
  groupBy := some [{ column := "symbol" }]

/-- `SELECT price, COUNT(*) FROM trades GROUP BY price`. -/
def countByPrice : SelectStmt Unit where
  columns := [countStar]
  fromTable := "trades"
  groupBy := some [{ column := "price" }]

/-- Three prices of two symbols, one of them `INT64_MIN` and one of both symbols. -/
def threePrices : List Partition :=
  [.ofPrices ⟨0, 1, 0⟩ [5, 7, int64Min], .ofPrices ⟨0, 2, 0⟩ [7, 7]]

def allRows (p : Partition) : List Nat := range p.numRows

theorem groupPaths_threePrices :
    PathsAgree insertionOrder { now := 0 } countByPrice { column := "price" } threePrices
      allRows := by
  have hsymbol : ¬({ column := "price" } : GroupKey).isSymbol := by simp [GroupKey.isSymbol]
  refine (groupPaths_iff _ _ _ _ _ _ ⟨rfl, rfl, rfl, rfl⟩ ?_ ?_).mpr
    ⟨fun h => absurd h hsymbol, ?_, ?_⟩
  · intro p hp
    simp only [threePrices, mem_cons, not_mem_nil, or_false] at hp
    rcases hp with rfl | rfl
    · exact ⟨3, by decide +kernel⟩
    · exact ⟨2, by decide +kernel⟩
  · exact fun _ => by decide +kernel
  · exact fun _ => by decide +kernel
  · exact by decide +kernel

/-- No price is above 0, but the symbol has a row with the count 0. -/
theorem symbol_without_rows :
    (execGroupAgg insertionOrder { now := 0 } (countBySymbol .gt) [onePrice]).map
        QueryResult.rows = .ok [[1, 0]] ∧
      (generalGroupAgg insertionOrder { now := 0 } (countBySymbol .gt) [{ column := "symbol" }]
        [onePrice]).map QueryResult.rows = .ok [] := by
  decide +kernel

end Zepto.Sql
