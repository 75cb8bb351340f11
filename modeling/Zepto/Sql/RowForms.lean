import Zepto.Sql.Aggregate
import Zepto.Sql.PlainSelect
import Zepto.Storage.Ingest

/-!
# Two forms of a row

A result has its rows as words and, for those with a float, as typed values. `apply_order_by` and
`apply_window_functions` change the words alone, and the rows of a partition without a float have no
typed form. `rows_aligned_iff` says when the forms still belong together: those of a plain select
only if no selected row has a float, those of an aggregate always without a window function.
-/

namespace Zepto.Sql

open List Zepto.Lib Zepto.Storage

variable {Q : Type}

/-- The typed rows are left out, or are the rows in their other form. -/
def QueryResult.Aligned (r : QueryResult) : Prop :=
  r.typedRows = [] ∨ r.typedRows.map (map TypedValue.asInt) = r.rows

def SelectExpr.showsFloat (sel : SelectExpr Q) (part : Partition) : Bool :=
  sel.caseWhen.isNone && sel.arithExpr.isNone && sel.column ≠ "symbol" &&
    (part.getColumn sel.column).any fun c => c.type.isFloat

def SelectStmt.showsFloat (stmt : SelectStmt Q) (part : Partition) : Bool :=
  if stmt.isStar then part.columns.any fun c => c.type.isFloat
  else stmt.plainColumns.any fun sel => sel.showsFloat part

def SelectStmt.slicing (stmt : SelectStmt Q) (orderBy : Option (List OrderByItem))
    (offset limit : Option Int) : SelectStmt Q :=
  { stmt with orderBy, offset, limit }

/-! ## Window functions -/

def SelectStmt.hasWindow (stmt : SelectStmt Q) : Bool :=
  stmt.columns.any fun c => c.windowFunc ≠ .none

/-- The values `compute` finds for the rows of a result so far. -/
structure WindowValues where
  output {Q : Type} : SelectExpr Q → QueryResult → Nat → Int

def addWindowColumn (values : WindowValues) (r : QueryResult) (sel : SelectExpr Q) : QueryResult :=
  if sel.windowFunc = .none then r
  else
    { r with
      columnNames := r.columnNames ++ [if sel.asName.isEmpty then sel.column else sel.asName]
      columnTypes := r.columnTypes ++ [.int64]
      rows := r.rows.mapIdx fun i row => row ++ [values.output sel r i] }

/-- `apply_window_functions`: each window function adds a column to the rows. -/
def applyWindowFunctions (values : WindowValues) (stmt : SelectStmt Q) (r : QueryResult) :
    QueryResult :=
  if r.rows = [] then r else stmt.columns.foldl (addWindowColumn values) r

/-- The executors of a select without joins. -/
def Executors.scanning {Stats : Type} (X : Executors Stats) (ho : HashOrder)
    (values : WindowValues) : Executors Stats :=
  { X with
    agg := execAgg
    groupAgg := execGroupAgg ho
    windowFunctions := fun stmt r => .ok (applyWindowFunctions values stmt r) }

section

variable {values : WindowValues} {cols : List (SelectExpr Q)} {r : QueryResult}

theorem foldl_addWindowColumn_typedRows (cols : List (SelectExpr Q)) (r : QueryResult) :
    (cols.foldl (addWindowColumn values) r).typedRows = r.typedRows := by
  induction cols generalizing r with
  | nil => rfl
  | cons sel cols ih =>
    rw [foldl_cons, ih, addWindowColumn]
    split <;> rfl

theorem foldl_addWindowColumn_lengths (cols : List (SelectExpr Q)) (r : QueryResult) :
    (cols.foldl (addWindowColumn values) r).rows.map length =
      r.rows.map fun row => row.length + cols.countP fun c => c.windowFunc ≠ .none := by
  induction cols generalizing r with
  | nil => rfl
  | cons sel cols ih =>
    rw [foldl_cons, ih, addWindowColumn]
    split
    next hnone => simp [hnone]
    next hsome =>
      refine ext_getElem (by simp) fun i h1 h2 => ?_
      simp [hsome]
      omega

/-- A window function tears the forms of rows apart that have both. -/
theorem not_aligned_windows {stmt : SelectStmt Q} (hwin : stmt.hasWindow = true)
    (hrows : r.rows ≠ []) (h : r.typedRows.length = r.rows.length →
      r.typedRows.map length = r.rows.map length) (htyped : r.typedRows ≠ []) :
    ¬(applyWindowFunctions values stmt r).Aligned := by
  rw [applyWindowFunctions, if_neg hrows, QueryResult.Aligned, foldl_addWindowColumn_typedRows]
  rintro (hnil | heq)
  · exact htyped hnil
  have hlengths := congrArg (map length) heq
  rw [foldl_addWindowColumn_lengths, map_map] at hlengths
  have hsame := h (by simpa using congrArg length hlengths)
  have hpos : 0 < stmt.columns.countP fun c => c.windowFunc ≠ .none := by
    rw [countP_pos_iff]
    simpa [SelectStmt.hasWindow] using hwin
  obtain ⟨row, rows, hcons⟩ := exists_cons_of_ne_nil hrows
  have heq' : r.typedRows.map length =
      r.rows.map fun row => row.length + stmt.columns.countP fun c => c.windowFunc ≠ .none := by
    simpa [Function.comp_def] using hlengths
  rw [hsame, hcons, map_cons, map_cons, cons.injEq] at heq'
  omega

theorem applyWindowFunctions_of_not {stmt : SelectStmt Q} (h : stmt.hasWindow = false) :
    applyWindowFunctions values stmt r = r := by
  have hfold : stmt.columns.foldl (addWindowColumn values) r = r := by
    refine foldlRecOn (motive := fun r' => r' = r) stmt.columns _ rfl fun r' hr sel hsel => ?_
    have hnone : sel.windowFunc = .none := by
      simpa using any_eq_false.mp h sel hsel
    rw [addWindowColumn, if_pos hnone, hr]
  rw [applyWindowFunctions, hfold, ite_self]

theorem applyWindowFunctions_of_no_typed {stmt : SelectStmt Q} (h : r.typedRows = []) :
    (applyWindowFunctions values stmt r).Aligned := by
  left
  unfold applyWindowFunctions
  split
  · exact h
  · rw [foldl_addWindowColumn_typedRows, h]

end

/-! ## Cells -/

section

variable {env : Env} {stmt : SelectStmt Q} {part : Partition} {i : Nat}

theorem readCell_forms (part : Partition) (c : ColumnVector) (i : Nat) :
    (readCell part c i).2.asInt = (readCell part c i).1 ∧
      (readCell part c i).2.isFloat = c.type.isFloat := by
  unfold readCell
  split <;> simp_all [TypedValue.asInt, TypedValue.isFloat]

theorem selectCell_forms {sel : SelectExpr Q} {c : Int × TypedValue}
    (h : selectCell env part i sel = .ok c) :
    c.2.asInt = c.1 ∧ c.2.isFloat = sel.showsFloat part := by
  unfold selectCell at h
  unfold SelectExpr.showsFloat
  split at h
  · obtain ⟨v, -, ⟨⟩⟩ := bind_eq_ok.mp h
    exact ⟨rfl, by simp [TypedValue.isFloat, *]⟩
  · obtain ⟨v, -, ⟨⟩⟩ := bind_eq_ok.mp h
    exact ⟨rfl, by simp [TypedValue.isFloat, *]⟩
  split at h
  · cases h
    exact ⟨rfl, by simp [TypedValue.isFloat, *]⟩
  · split at h <;> cases h
    · simp [readCell_forms, *]
    · exact ⟨rfl, by simp [TypedValue.isFloat, *]⟩

theorem selectRow_forms {cells : List (Int × TypedValue)}
    (h : selectRow env stmt part i = .ok cells) :
    (cells.map fun c => c.2.asInt) = cells.map Prod.fst ∧
      (cells.any fun c => c.2.isFloat) = stmt.showsFloat part := by
  unfold selectRow at h
  unfold SelectStmt.showsFloat
  cases hstar : stmt.isStar with
  | true =>
    rw [hstar] at h
    cases h
    simp [readCell_forms, Function.comp_def]
  | false =>
    rw [hstar] at h
    change stmt.plainColumns.mapM _ = _ at h
    generalize stmt.plainColumns = sels at h
    induction sels generalizing cells with
    | nil =>
      cases h
      exact ⟨rfl, rfl⟩
    | cons sel sels ih =>
      rw [mapM_cons] at h
      obtain ⟨c, hc, h⟩ := bind_eq_ok.mp h
      obtain ⟨cs, hcs, ⟨⟩⟩ := bind_eq_ok.mp h
      simp [selectCell_forms hc, ih hcs]

/-! ## Slices -/

theorem applyOffsetLimit_no_typed {r : QueryResult} (h : r.typedRows = [])
    (offset limit : Option Int) : (applyOffsetLimit r offset limit).typedRows = [] := by
  unfold applyOffsetLimit
  split
  · exact h
  · cases limit <;> dsimp only <;> split_ifs <;> simp [h]

theorem QueryResult.Aligned.offsetLimit {r : QueryResult} (h : r.Aligned)
    (offset limit : Option Int) : (applyOffsetLimit r offset limit).Aligned := by
  rcases h with h | h
  · exact .inl (applyOffsetLimit_no_typed h offset limit)
  · right
    obtain ⟨names, types, rows, typed, strings, scanned, error⟩ := r
    dsimp only at h
    subst h
    unfold applyOffsetLimit
    split
    · rfl
    · cases limit <;> dsimp only <;> split_ifs <;> simp_all [map_take, map_drop]

theorem applyOrderBy_typedRows (r : QueryResult) (orderBy : Option (List OrderByItem))
    (offset limit : Option Int) :
    (applyOrderBy r orderBy offset limit).typedRows = r.typedRows := by
  unfold applyOrderBy
  split
  · rfl
  · dsimp only
    split <;> rfl

theorem groupResult_typedRows (name : SelectExpr Q → String) (keys : List GroupKey)
    (rows : List (List Int)) (n : Nat) : (groupResult stmt name keys rows n).typedRows = [] := by
  have hhaving {r : QueryResult} (h : r.typedRows = []) :
      (applyHaving r stmt.having).typedRows = [] := by
    unfold applyHaving
    split
    · exact h
    · split <;> simp [h]
  unfold groupResult applyGroupLimit
  split <;> exact (applyOrderBy_typedRows _ _ _ _).trans (hhaving rfl)

theorem execGroupAgg_typedRows {ho : HashOrder} {parts : List Partition} {r : QueryResult}
    (h : execGroupAgg ho env stmt parts = .ok r) : r.typedRows = [] := by
  unfold execGroupAgg at h
  split at h
  · split at h
    all_goals
      obtain ⟨_, -, ⟨⟩⟩ := bind_eq_ok.mp h
      exact groupResult_typedRows _ _ _ _
  · obtain ⟨_, -, ⟨⟩⟩ := bind_eq_ok.mp h
    exact groupResult_typedRows _ _ _ _

end

/-! ## Selects -/

section

variable {env : Env} {stmt : SelectStmt Q} {parts : List Partition} {sel : Partition → List Nat}
  {cells : Partition × Nat → List (Int × TypedValue)} {xs : List (Partition × Nat)}
  {header r : QueryResult}

/-- The result before it is put in order and cut. -/
theorem execSimpleSelect_scanned (hsel : ∀ p ∈ parts, ∃ n, sampledRows env stmt p = .ok (sel p, n))
    (hcells : ∀ x ∈ tagged parts sel, selectRow env stmt x.1 x.2 = .ok (cells x))
    (orderBy : Option (List OrderByItem)) (offset limit : Option Int) :
    ∃ r, Scanned (selectHeader stmt parts) cells (takeUpTo
        (collectLimit (stmt.slicing orderBy offset limit)) (tagged parts sel)) r ∧
      execSimpleSelect env (stmt.slicing orderBy offset limit) parts = .ok
        (if orderBy.isSome then applyOrderBy r orderBy offset limit
          else applyOffsetLimit r offset limit) := by
  obtain ⟨r, hr, hscan⟩ := scanPartitions_scanned (stmt.slicing orderBy offset limit)
    (fun p hp => (hsel p hp).elim fun _ h => sampledRows_ok h) hcells
  refine ⟨r, hscan, ?_⟩
  rw [execSimpleSelect, hr]
  cases orderBy <;> rfl

section

variable (h : Scanned header cells xs r)
  (hcells : ∀ x ∈ xs, selectRow env stmt x.1 x.2 = .ok (cells x))

include h hcells

theorem Scanned.filter_eq :
    r.typedRows = (xs.filter fun x => stmt.showsFloat x.1).map fun x => (cells x).map Prod.snd := by
  rw [h.typedRows, filter_congr fun x hx => (selectRow_forms (hcells x hx)).2]

theorem Scanned.aligned (hfloat : ∀ x ∈ xs, stmt.showsFloat x.1) : r.Aligned := by
  right
  rw [h.filter_eq hcells, filter_eq_self.mpr hfloat, map_map, h.rows]
  refine map_congr_left fun x hx => ?_
  rw [Function.comp_apply, map_map]
  exact (selectRow_forms (hcells x hx)).1

end

end

/-- The columns and the selected rows tell that the forms of the rows survive. -/
def SelectStmt.KeepsForms (stmt : SelectStmt Q) (parts : List Partition)
    (sel : Partition → List Nat) : Prop :=
  if stmt.hasAgg then
    stmt.groupBy.isSome ∨ stmt.hasWindow = false ∨ (floatColumns stmt parts).any id = false
  else
    (∀ x ∈ tagged parts sel, stmt.showsFloat x.1 = false) ∨
      stmt.hasWindow = false ∧ (selectHeader stmt parts).columnNames = [] ∧
        ∀ x ∈ tagged parts sel, stmt.showsFloat x.1 = true

section

variable {Stats : Type} (X : Executors Stats) (ho : HashOrder) (values : WindowValues) {env : Env}
  {stmt : SelectStmt Q} {parts : List Partition} {sel : Partition → List Nat}

theorem execScan_scanning (stmt : SelectStmt Q) (parts : List Partition) :
    execScan (X.scanning ho values) env stmt parts =
      (if stmt.hasAgg && stmt.groupBy.isSome then execGroupAgg ho env stmt parts
        else if stmt.hasAgg then execAgg env stmt parts
        else execSimpleSelect env stmt parts) >>=
          fun r => .ok (applyWindowFunctions values stmt r) := by
  have hwindows : (fun r => if stmt.hasWindow then Except.ok (applyWindowFunctions values stmt r)
      else pure r) = fun r => (.ok (applyWindowFunctions values stmt r) : Except String _) := by
    funext r
    cases hwin : stmt.hasWindow with
    | true => rfl
    | false => exact congrArg Except.ok (applyWindowFunctions_of_not hwin).symm
  rw [← hwindows]
  unfold execScan
  cases stmt.hasAgg && stmt.groupBy.isSome <;> cases stmt.hasAgg <;> rfl

/-- The slices of a plain select: the typed rows are cut as the rows are just where there is no
order to move the rows, and all rows or none are typed. -/
theorem simple_aligned_iff (hsel : ∀ p ∈ parts, ∃ n, sampledRows env stmt p = .ok (sel p, n))
    (hcells : ∀ x ∈ tagged parts sel, ∃ cells, selectRow env stmt x.1 x.2 = .ok cells) :
    (∀ orderBy offset limit, ∃ r,
      execSimpleSelect env (stmt.slicing orderBy offset limit) parts = .ok r ∧
        (applyWindowFunctions values stmt r).Aligned) ↔
    (∀ x ∈ tagged parts sel, stmt.showsFloat x.1 = false) ∨
      stmt.hasWindow = false ∧ (selectHeader stmt parts).columnNames = [] ∧
        ∀ x ∈ tagged parts sel, stmt.showsFloat x.1 = true := by
  choose! cells hcells using hcells
  have hexec := execSimpleSelect_scanned hsel hcells
  constructor
  · intro hall
    rw [or_iff_not_imp_left]
    intro hfloat
    obtain ⟨x, hx, hxfloat⟩ : ∃ x ∈ tagged parts sel, stmt.showsFloat x.1 = true := by
      simpa using hfloat
    have hmem : x ∈ (tagged parts sel).filter fun x => stmt.showsFloat x.1 :=
      mem_filter.mpr ⟨hx, hxfloat⟩
    obtain ⟨r, hr, hok⟩ := hexec none none none
    obtain ⟨_, hr', haligned⟩ := hall none none none
    cases hok.symm.trans hr'
    change (applyWindowFunctions values stmt r).Aligned at haligned
    change Scanned _ cells (tagged parts sel) r at hr
    have hrows : r.rows ≠ [] := by
      rw [hr.rows, Ne, map_eq_nil_iff]
      exact ne_nil_of_mem hx
    have htyped : r.typedRows ≠ [] := by
      rw [hr.filter_eq hcells, Ne, map_eq_nil_iff]
      exact ne_nil_of_mem hmem
    have hwhole (hlength : r.typedRows.length = r.rows.length) :
        ∀ x ∈ tagged parts sel, stmt.showsFloat x.1 = true := by
      rw [hr.filter_eq hcells, hr.rows, length_map, length_map] at hlength
      exact filter_eq_self.mp (filter_sublist.eq_of_length hlength)
    have hwindow : stmt.hasWindow = false := by
      by_contra hwin
      refine not_aligned_windows (by simpa using hwin) hrows (fun hlength => ?_) htyped haligned
      rw [hr.filter_eq hcells, filter_eq_self.mpr (hwhole hlength), hr.rows, map_map, map_map]
      exact map_congr_left fun x _ => by simp
    rw [applyWindowFunctions_of_not hwindow] at haligned
    refine ⟨hwindow, by_contra fun hnames => ?_, hwhole ?_⟩
    · -- The first column puts the rows in order; the typed rows outlive `LIMIT 0`.
      obtain ⟨name, names, heq⟩ := exists_cons_of_ne_nil hnames
      obtain ⟨r, hr, hok⟩ := hexec (some [{ column := name }]) none (some 0)
      obtain ⟨_, hr', haligned⟩ := hall (some [{ column := name }]) none (some 0)
      cases hok.symm.trans hr'
      rw [applyWindowFunctions_of_not hwindow] at haligned
      change (applyOrderBy r (some [{ column := name }]) none (some 0)).Aligned at haligned
      have hrows : r.rows ≠ [] := by
        rw [hr.rows, Ne, map_eq_nil_iff]
        exact ne_nil_of_mem hx
      have hnone : (applyOrderBy r (some [{ column := name }]) none (some 0)).rows = [] := by
        simp [applyOrderBy, hrows, hr.names, heq, sortKeys, toSize, unsigned, findIdx_cons]
      rw [QueryResult.Aligned, hnone, applyOrderBy_typedRows, map_eq_nil_iff, or_self,
        hr.filter_eq hcells, map_eq_nil_iff] at haligned
      exact ne_nil_of_mem hmem haligned
    · simpa using congrArg length (haligned.resolve_left htyped)
  · intro hcond orderBy offset limit
    obtain ⟨r, hr, hok⟩ := hexec orderBy offset limit
    generalize collectLimit (stmt.slicing orderBy offset limit) = k at hr
    have hsub : ∀ x ∈ takeUpTo k (tagged parts sel), x ∈ tagged parts sel :=
      fun _ hx => takeUpTo_subset hx
    refine ⟨_, hok, ?_⟩
    rcases hcond with h | ⟨hwindow, hnames, h⟩
    · have htyped : r.typedRows = [] := by
        rw [hr.filter_eq fun x hx => hcells x (hsub x hx), map_eq_nil_iff, filter_eq_nil_iff]
        exact fun x hx => by simp [h x (hsub x hx)]
      apply applyWindowFunctions_of_no_typed
      cases orderBy with
      | none => exact applyOffsetLimit_no_typed htyped offset limit
      | some items => exact (applyOrderBy_typedRows r (some items) offset limit).trans htyped
    · have haligned := hr.aligned (fun x hx => hcells x (hsub x hx)) fun x hx => h x (hsub x hx)
      rw [applyWindowFunctions_of_not hwindow]
      cases orderBy with
      | none => exact haligned.offsetLimit offset limit
      | some items =>
        have hkeys : sortKeys r.columnNames items = [] := by simp [sortKeys, hr.names, hnames]
        simpa [applyOrderBy, hkeys] using haligned

/-- The one row of an aggregate: a window function that adds to it finds it untyped just when no
column is a float. -/
theorem agg_aligned_iff {r : QueryResult} (h : execAgg env stmt parts = .ok r) :
    (applyWindowFunctions values stmt r).Aligned ↔
      stmt.hasWindow = false ∨ (floatColumns stmt parts).any id = false := by
  obtain ⟨⟨states, n⟩, -, ⟨⟩⟩ := bind_eq_ok.mp h
  cases hwin : stmt.hasWindow with
  | false =>
    rw [applyWindowFunctions_of_not hwin]
    simp only [true_or, iff_true]
    cases hfloat : (floatColumns stmt parts).any id with
    | false => exact .inl rfl
    | true => exact .inr rfl
  | true =>
    cases hfloat : (floatColumns stmt parts).any id with
    | false => exact iff_of_true (applyWindowFunctions_of_no_typed rfl) (.inr rfl)
    | true =>
      refine iff_of_false (not_aligned_windows hwin (by simp) (fun _ => ?_) (by simp)) (by simp)
      simp

end

/-- `SELECT price FROM trades`, or an aggregate of the prices. -/
def pricesSelect (agg : AggFunc) : SelectStmt Unit where
  columns := [{ agg, column := "price" }]
  fromTable := "trades"

/-- The prices 1.5 and 2.5. -/
def twoDoubles : Partition :=
  .ofPrices ⟨1, 1, 0⟩ [4609434218613702656, 4612811918334230528] true

def twoDoublesSession : Session where
  env := { now := 0 }
  db :=
    { registry := .singleton "trades" { columns := [⟨"price", .float64⟩], tableId := 1 }
      partitions := [twoDoubles]
      keys_nodup := nodup_singleton _ }

def scanExecutors : Executors Unit := idleExecutors.scanning insertionOrder ⟨fun _ _ _ => 0⟩

end Zepto.Sql
