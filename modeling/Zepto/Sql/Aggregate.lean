import Zepto.Lib.Grouping
import Zepto.Sql.SimpleSelect

/-!
# Aggregation

`execAgg` and `execGroupAgg` follow the serial paths of `exec_agg` and `exec_group_agg`. Without
`GROUP BY` the aggregates are computed in doubles, with it in `int64`. A `GROUP BY` has three
paths: by the symbol of the partition, by one other key through an array of slots with the last key
kept at hand, and by several keys. The order in which a hash map hands out its groups is a parameter
(`HashOrder`).
-/

namespace Zepto.Sql

open Zepto.Lib Zepto.Storage

variable {Q : Type}

/-- The iteration order of an `unordered_map`. -/
structure HashOrder where
  order {κ σ : Type} : List ((_ : κ) × σ) → List ((_ : κ) × σ)
  perm : ∀ {κ σ : Type} (es : List ((_ : κ) × σ)), (order es).Perm es

def insertionOrder : HashOrder := ⟨fun es => es, fun _ => .refl _⟩

/-- `compute_stats`; a percentile index over 100, which lies outside, reads 0. -/
def computeStats (agg : AggFunc) (vals : List Int) (pct : Int) : Int :=
  if vals.isEmpty then int64Min
  else
    let n := doubleOfInt vals.length
    let mean := vals.foldl (fun s v => s + doubleOfInt v) (doubleOfInt 0) / n
    let var := vals.foldl (fun s v => s + (doubleOfInt v - mean) * (doubleOfInt v - mean))
      (doubleOfInt 0) / n
    match agg with
    | .stddev => intOfDouble var.sqrt
    | .variance => intOfDouble var
    | _ =>
      let pct := if agg = .median then 50 else pct
      (vals.mergeSort fun a b => a ≤ b).getD (toSize pct * (vals.length - 1) % 2 ^ 64 / 100) 0

/-! ## HAVING -/

/-- The position of a result column; the number of columns if missing. -/
def columnPos (names : List String) (column : String) : Nat := names.findIdx fun n => n = column

/-- `eval_row` of `apply_having_filter`. A subquery left in the tree passes. -/
def havingRow (names : List String) (row : List Int) (typed : Option (List TypedValue)) :
    Expr Q → Bool
  | .null => true
  | .and l r => havingRow names row typed l && havingRow names row typed r
  | .or l r => havingRow names row typed l || havingRow names row typed r
  | .not l => !havingRow names row typed l
  | .compare c =>
    let i := columnPos names c.column
    if names.length ≤ i ∨ row.length ≤ i then false
    else if c.isFloat then
      c.op.testF64 (match typed with
        | some tv => (tv.getD i (.int 0)).asFloat
        | none => doubleOfInt (row.getD i 0)) c.valueF
    else c.op.test (row.getD i 0) c.value
  | .between _ column _ lo hi =>
    let i := columnPos names column
    if names.length ≤ i ∨ row.length ≤ i then false
    else lo ≤ row.getD i 0 && row.getD i 0 ≤ hi
  | .inList _ column vals _ =>
    let i := columnPos names column
    if names.length ≤ i then false else row.getD i 0 ∈ vals
  | .isNull _ column negated =>
    let i := columnPos names column
    if names.length ≤ i then !negated else decide (row.getD i 0 = int64Min) != negated
  | .like _ column pat negated =>
    let i := columnPos names column
    if names.length ≤ i then negated
    else likeMatch pat.toList (toString (row.getD i 0)).toList != negated
  | .scalarSubquery .. | .inSubquery .. => true

/-- `apply_having_filter`. -/
def applyHaving (r : QueryResult) (having : Option (Expr Q)) : QueryResult :=
  match having with
  | none => r
  | some e =>
    if r.rows.isEmpty then r
    else
      let kept := r.rows.zipIdx.filter fun p => havingRow r.columnNames p.1 (r.typedRows[p.2]?) e
      { columnNames := r.columnNames
        columnTypes := r.columnTypes
        rowsScanned := r.rowsScanned
        rows := kept.map Prod.fst
        typedRows := kept.filterMap fun p => r.typedRows[p.2]? }

/-- The selected rows of a partition, sampled, and the number scanned. -/
def sampledRows (env : Env) (stmt : SelectStmt Q) (part : Partition) :
    Except String (List Nat × Nat) := do
  let (sel, scanned) ← collectAndIntersect env part stmt.whereClause
  pure (applySample stmt.sampleRate sel, scanned)

theorem sampledRows_ok {env : Env} {stmt : SelectStmt Q} {part : Partition} {l : List Nat} {n : Nat}
    (h : sampledRows env stmt part = .ok (l, n)) :
    ∃ l' n, collectAndIntersect env part stmt.whereClause = .ok (l', n) ∧
      applySample stmt.sampleRate l' = l := by
  obtain ⟨⟨l', k⟩, hl, hsample⟩ := bind_eq_ok.mp h
  simp only [pure_eq_ok, Prod.mk.injEq] at hsample
  exact ⟨l', k, hl, hsample.1⟩

/-- `std::min` and `std::max` of doubles. -/
def minF64 (a b : Float) : Float := if b < a then b else a

def maxF64 (a b : Float) : Float := if a < b then b else a

/-- The bucket a value falls into; without a bucket the value itself. -/
def xbarFloor (bucket v : Int) : Int := if bucket > 0 then v.tdiv bucket * bucket else v

/-! ## Without GROUP BY -/

def doubleMax : Float := doubleOfBits 0x7fefffffffffffff

def doubleLowest : Float := doubleOfBits 0xffefffffffffffff

/-- What a row gives an aggregate: its value in both readings, whether the column is there, the
volume for `VWAP`. -/
structure AggInput where
  value : Int
  valueF : Float
  present : Bool
  volume : Option Int

def colIsFloat (part : Partition) (column : String) : Bool :=
  (part.getColumn column).any fun c => c.type.isFloat

/-- Which select items are float columns, by the first partition. -/
def floatColumns (stmt : SelectStmt Q) (parts : List Partition) : List Bool :=
  stmt.columns.map fun col =>
    match parts with
    | [] => false
    | part :: _ => col.column ≠ "" && col.column ≠ "*" && colIsFloat part col.column

/-- The item looks at values; `XBAR` and `VWAP` only at those of a column. -/
def SelectExpr.evaluates (col : SelectExpr Q) : Bool :=
  match col.agg with
  | .none => false
  | .count => col.aggDistinct
  | .xbar | .vwap => col.caseWhen.isNone && col.arithExpr.isNone
  | _ => true

/-- `agg_val` and `agg_dval`, where the item looks at them. -/
def aggInput (env : Env) (part : Partition) (col : SelectExpr Q) (isFloat : Bool) (idx : Nat) :
    Except String AggInput := do
  let present := col.caseWhen.isNone && col.arithExpr.isNone && (part.getColumn col.column).any
    fun c => c.data.isSome
  let volume := if present then colWord part col.aggArg2 idx else none
  if !col.evaluates then
    pure { value := 0, valueF := doubleOfInt 0, present, volume }
  else match col.caseWhen, col.arithExpr with
    | some cw, _ => do
      let v ← evalCaseWhen env part idx cw
      pure { value := v, valueF := doubleOfInt v, present, volume }
    | none, some e => do
      let v ← evalArith env part idx e
      pure { value := v, valueF := doubleOfInt v, present, volume }
    | none, none =>
      -- A float column keeps its doubles as words.
      let word := (colWord part col.column idx).getD 0
      pure { value := word, present, volume
             valueF := if isFloat then doubleOfBits (unsigned 64 word) else doubleOfInt word }

structure AggState where
  accum : Float := doubleOfInt 0
  cnt : Int := 0
  minv : Float := doubleMax
  maxv : Float := doubleLowest
  vwapPv : Float := doubleOfInt 0
  vwapV : Int := 0
  firstVal : Int := 0
  lastVal : Int := 0
  hasFirst : Bool := false
  distinct : List Int := []
  vals : List Int := []

def AggState.step (col : SelectExpr Q) (s : AggState) (x : AggInput) : AggState :=
  match col.agg with
  | .none => s
  | .count =>
    if col.aggDistinct then
      { s with distinct := if x.value ∈ s.distinct then s.distinct else s.distinct ++ [x.value] }
    else { s with cnt := s.cnt + 1 }
  | .sum => { s with accum := s.accum + x.valueF }
  | .avg => { s with accum := s.accum + x.valueF, cnt := s.cnt + 1 }
  | .min => { s with minv := minF64 s.minv x.valueF }
  | .max => { s with maxv := maxF64 s.maxv x.valueF }
  | .vwap =>
    match x.volume with
    | some v =>
      { s with vwapPv := s.vwapPv + x.valueF * doubleOfInt v, vwapV := wrap64 (s.vwapV + v) }
    | none => s
  | .xbar =>
    if x.present && !s.hasFirst then
      { s with firstVal := xbarFloor col.xbarBucket x.value, hasFirst := true }
    else s
  | .first | .last =>
    { s with
      firstVal := if s.hasFirst then s.firstVal else x.value
      hasFirst := true
      lastVal := x.value }
  | .stddev | .variance | .median | .percentile => { s with vals := s.vals ++ [x.value] }

/-- A double of a float column as it is, otherwise its integer. -/
def asColumn (isFloat : Bool) (x : Float) : TypedValue :=
  if isFloat then .float x else .int (intOfDouble x)

def AggState.result (col : SelectExpr Q) (isFloat : Bool) (s : AggState) : TypedValue :=
  match col.agg with
  | .none => .int 0
  | .count => .int (if col.aggDistinct then s.distinct.length else s.cnt)
  | .sum => asColumn isFloat s.accum
  | .avg => if s.cnt > 0 then asColumn isFloat (s.accum / doubleOfInt s.cnt) else .int int64Min
  | .min => asColumn isFloat s.minv
  | .max => asColumn isFloat s.maxv
  | .vwap => .int (if s.vwapV > 0 then intOfDouble (s.vwapPv / doubleOfInt s.vwapV) else int64Min)
  | .first => .int s.firstVal
  | .last => .int s.lastVal
  | .xbar => .int s.firstVal
  | .stddev | .variance | .median | .percentile =>
    .int (computeStats col.agg s.vals col.percentileValue)

def aggName (col : SelectExpr Q) : String :=
  if col.asName.isEmpty then (if col.column.isEmpty then "*" else col.column) else col.asName

/-- One partition: each select item goes through the rows. -/
def aggPartition (env : Env) (stmt : SelectStmt Q) (floats : List Bool)
    (acc : List AggState × Nat) (part : Partition) : Except String (List AggState × Nat) := do
  let (sel, scanned) ← sampledRows env stmt part
  let states ← ((stmt.columns.zip floats).zip acc.1).mapM fun ((col, isFloat), s) => do
    let xs ← sel.mapM (aggInput env part col isFloat)
    pure (xs.foldl (.step col) s)
  pure (states, acc.2 + scanned)

/-- `exec_agg`, the serial path. -/
def execAgg (env : Env) (stmt : SelectStmt Q) (parts : List Partition) :
    Except String QueryResult := do
  let floats := floatColumns stmt parts
  let (states, scanned) ←
    parts.foldlM (aggPartition env stmt floats) (stmt.columns.map fun _ => {}, 0)
  let row := ((stmt.columns.zip floats).zip states).map fun ((col, isFloat), s) =>
    s.result col isFloat
  pure
    { columnNames := stmt.columns.map aggName
      columnTypes := floats.map fun isFloat => if isFloat then .float64 else .int64
      rows := [row.map TypedValue.asInt]
      typedRows := if floats.any id then [row] else []
      rowsScanned := scanned }

/-! ## With GROUP BY -/

/-- What a row gives an aggregate of a group: value, word of the column, volume. -/
structure GroupInput where
  value : Int
  data : Option Int
  volume : Option Int

structure GroupState where
  sum : Int := 0
  count : Int := 0
  avgSum : Float := doubleOfInt 0
  minv : Int := int64Max
  maxv : Int := int64Min
  vwapPv : Float := doubleOfInt 0
  vwapV : Int := 0
  firstVal : Int := 0
  lastVal : Int := 0
  hasFirst : Bool := false
  vals : List Int := []

/-- Where the loops over the rows of a group differ. -/
structure GroupLoop where
  /-- The value `XBAR` takes from a row. -/
  xbarInput : GroupInput → Option Int
  /-- The column is looked up for a `CASE` item too. -/
  caseData : Bool := false

def GroupState.step (loop : GroupLoop) (col : SelectExpr Q) (s : GroupState) (x : GroupInput) :
    GroupState :=
  match col.agg with
  | .none => s
  | .count => { s with count := s.count + 1 }
  | .sum => { s with sum := wrap64 (s.sum + x.value) }
  | .avg => { s with avgSum := s.avgSum + doubleOfInt x.value, count := s.count + 1 }
  | .min => { s with minv := min s.minv x.value }
  | .max => { s with maxv := max s.maxv x.value }
  | .vwap =>
    match x.data, x.volume with
    | some d, some v =>
      { s with vwapPv := s.vwapPv + doubleOfInt d * doubleOfInt v, vwapV := wrap64 (s.vwapV + v) }
    | _, _ => s
  | .xbar =>
    match loop.xbarInput x with
    | some v =>
      if s.hasFirst then s
      else { s with firstVal := xbarFloor col.xbarBucket v, hasFirst := true }
    | none => s
  | .first | .last =>
    { s with
      firstVal := if s.hasFirst then s.firstVal else x.value
      hasFirst := true
      lastVal := x.value }
  | .stddev | .variance | .median | .percentile =>
    { s with vals := s.vals ++ [x.value] }

/-- The result of one select item; `emptyAvg` is the average of no rows. -/
def GroupState.result (emptyAvg : Int) (col : SelectExpr Q) (s : GroupState) : Int :=
  match col.agg with
  | .none => 0
  | .count => s.count
  | .sum => s.sum
  | .avg => if s.count > 0 then intOfDouble (s.avgSum / doubleOfInt s.count) else emptyAvg
  | .min => if s.minv = int64Max then int64Min else s.minv
  | .max => s.maxv
  | .vwap => if s.vwapV > 0 then intOfDouble (s.vwapPv / doubleOfInt s.vwapV) else int64Min
  | .first => s.firstVal
  | .last => s.lastVal
  | .xbar => s.firstVal
  | .stddev | .variance | .median | .percentile => computeStats col.agg s.vals col.percentileValue

/-- The aggregate calls `agg_v`. -/
def AggFunc.evaluates : AggFunc → Bool
  | .none | .count | .vwap | .xbar => false
  | _ => true

/-- `agg_v` and the pointers next to it. -/
def groupInput (env : Env) (loop : GroupLoop) (part : Partition) (idx : Nat) (col : SelectExpr Q) :
    Except String GroupInput := do
  let data :=
    if col.arithExpr.isSome || (col.caseWhen.isSome && !loop.caseData) then none
    else colWord part col.column idx
  let value ←
    if !col.agg.evaluates then pure 0
    else match col.caseWhen, col.arithExpr with
      | some cw, _ => evalCaseWhen env part idx cw
      | none, some e => evalArith env part idx e
      | none, none => pure (data.getD 0)
  pure { value, data, volume := colWord part col.aggArg2 idx }

def groupInputs (env : Env) (loop : GroupLoop) (stmt : SelectStmt Q) (part : Partition)
    (idx : Nat) : Except String (List GroupInput) :=
  stmt.columns.mapM (groupInput env loop part idx)

def stepStates (loop : GroupLoop) (stmt : SelectStmt Q) (states : List GroupState)
    (xs : List GroupInput) : List GroupState :=
  zipThree (.step loop) stmt.columns states xs

def newStates (stmt : SelectStmt Q) : List GroupState := stmt.columns.map fun _ => {}

abbrev Groups (κ : Type) := AList fun _ : κ => List GroupState

def touchGroup {κ : Type} [DecidableEq κ] (stmt : SelectStmt Q) (g : Groups κ) (k : κ) : Groups κ :=
  if (g.lookup k).isSome then g else g.insert k (newStates stmt)

def updateGroup {κ : Type} [DecidableEq κ] (loop : GroupLoop) (stmt : SelectStmt Q) (g : Groups κ)
    (k : κ) (xs : List GroupInput) : Groups κ :=
  match g.lookup k with
  | some states => g.insert k (stepStates loop stmt states xs)
  | none => g

/-! ### The three paths -/

def symbolLoop : GroupLoop where
  xbarInput x := x.data

def singleLoop : GroupLoop where
  xbarInput x := some (x.data.getD 0)
  caseData := true

def multiLoop : GroupLoop where
  xbarInput x := some (x.data.getD 0)

/-- `GROUP BY symbol`: the group is there as soon as the partition is. -/
def groupBySymbol (env : Env) (stmt : SelectStmt Q) (acc : Groups Int × Nat) (part : Partition) :
    Except String (Groups Int × Nat) := do
  let (sel, scanned) ← sampledRows env stmt part
  let g ← sel.foldlM (fun g idx => do
    pure (updateGroup symbolLoop stmt g part.symbolValue
      (← groupInputs env symbolLoop stmt part idx)))
    (touchGroup stmt acc.1 part.symbolValue)
  pure (g, acc.2 + scanned)

/-- The value of a single key; a column that is not there reads the symbol. -/
def singleKey (key : GroupKey) (part : Partition) (idx : Nat) : Int :=
  if key.column = "symbol" then part.symbolValue
  else (colWord part key.column idx).getD part.symbolValue

/-- A slot for each key, the states of all slots in one array, and the key and slot of the last row.
The first key at hand is `INT64_MIN`, which has no slot. -/
structure SlotGroups where
  keyToSlot : AList (fun _ : Int => UInt32) := ∅
  flatStates : List GroupState := []
  nextSlot : UInt32 := 0
  cachedKey : Int := int64Min
  cachedSlot : UInt32 := 0

namespace SlotGroups

/-- The slot of a row's key, searched for only if the key is another one than last time. -/
def find (stmt : SelectStmt Q) (c : SlotGroups) (key : Int) : SlotGroups :=
  if key = c.cachedKey then c
  else
    match c.keyToSlot.lookup key with
    | some slot => { c with cachedKey := key, cachedSlot := slot }
    | none =>
      { keyToSlot := c.keyToSlot.insert key c.nextSlot
        flatStates := c.flatStates ++ newStates stmt
        nextSlot := c.nextSlot + 1
        cachedKey := key
        cachedSlot := c.nextSlot }

/-- The states at `flat_states.data() + slot * ncols`, as far as the array goes. -/
def statesAt (stmt : SelectStmt Q) (c : SlotGroups) (slot : UInt32) : List GroupState :=
  (c.flatStates.drop (slot.toNat * stmt.columns.length)).take stmt.columns.length

/-- Take in a row. What goes behind the end of the array is lost: the next `resize` makes new states
there. -/
def step (loop : GroupLoop) (stmt : SelectStmt Q) (c : SlotGroups) (key : Int)
    (xs : List GroupInput) : SlotGroups :=
  let c := c.find stmt key
  let start := c.cachedSlot.toNat * stmt.columns.length
  { c with
    flatStates := c.flatStates.take start ++
      stepStates loop stmt (c.statesAt stmt c.cachedSlot) xs ++
      c.flatStates.drop (start + stmt.columns.length) }

/-- The keys with the states of their slots. -/
def groups (stmt : SelectStmt Q) (c : SlotGroups) : Groups Int where
  entries := c.keyToSlot.entries.map fun e => ⟨e.1, c.statesAt stmt e.2⟩
  nodupKeys := by
    rw [List.NodupKeys, List.keys, List.map_map]
    exact c.keyToSlot.nodupKeys

end SlotGroups

def groupBySingle (env : Env) (stmt : SelectStmt Q) (keyOf : Partition → Nat → Int)
    (rows : Partition → Except String (List Nat × Nat)) (acc : SlotGroups × Nat)
    (part : Partition) : Except String (SlotGroups × Nat) := do
  let (sel, scanned) ← rows part
  let c ← sel.foldlM (fun c idx => do
    pure (.step singleLoop stmt c (keyOf part idx)
      (← groupInputs env singleLoop stmt part idx))) acc.1
  pure (c, acc.2 + scanned)

/-- The value of one of several keys; a column that is not there reads 0. -/
def multiKey (key : GroupKey) (part : Partition) (idx : Nat) : Int :=
  if key.column = "symbol" then part.symbolValue else (colWord part key.column idx).getD 0

def groupByMulti (env : Env) (loop : GroupLoop) (stmt : SelectStmt Q)
    (keyOf : Partition → Nat → List Int) (rows : Partition → Except String (List Nat × Nat))
    (acc : Groups (List Int) × Nat) (part : Partition) :
    Except String (Groups (List Int) × Nat) := do
  let (sel, scanned) ← rows part
  let g ← sel.foldlM (fun g idx => do
    pure (updateGroup loop stmt (touchGroup stmt g (keyOf part idx)) (keyOf part idx)
      (← groupInputs env loop stmt part idx))) acc.1
  pure (g, acc.2 + scanned)

/-! ### The result -/

def SelectStmt.aggColumns (stmt : SelectStmt Q) : List (SelectExpr Q) :=
  stmt.columns.filter fun col => col.agg ≠ .none

/-- The name of an aggregate where expressions are called `expr`. -/
def groupAggName (col : SelectExpr Q) : String :=
  if col.asName.isEmpty && col.arithExpr.isSome then "expr" else aggName col

/-- The row of a group: its keys, then its aggregates. -/
def groupRow (emptyAvg : Int) (stmt : SelectStmt Q) (keys : List Int) (states : List GroupState) :
    List Int :=
  keys ++ ((stmt.columns.zip states).filter fun e => e.1.agg ≠ .none).map fun e =>
    e.2.result emptyAvg e.1

/-- A limit without an order cuts the rows; there is no offset. -/
def applyGroupLimit (stmt : SelectStmt Q) (r : QueryResult) : QueryResult :=
  match stmt.orderBy, stmt.limit with
  | none, some l => { r with rows := r.rows.take (toSize l) }
  | _, _ => r

/-- Names, rows, `HAVING`, `ORDER BY` and `LIMIT`. -/
def groupResult (stmt : SelectStmt Q) (name : SelectExpr Q → String) (keys : List GroupKey)
    (rows : List (List Int)) (scanned : Nat) : QueryResult :=
  let r : QueryResult :=
    { columnNames := keys.map GroupKey.column ++ stmt.aggColumns.map name
      columnTypes := keys.map (fun _ => .int64) ++ stmt.aggColumns.map fun _ => .int64
      rows
      rowsScanned := scanned }
  let r := applyHaving r stmt.having
  applyGroupLimit stmt (applyOrderBy r stmt.orderBy stmt.offset stmt.limit)

def bucketed (key : GroupKey) (v : Int) : Int :=
  xbarFloor key.dateTruncBucket (xbarFloor key.xbarBucket v)

/-- `exec_group_agg`, the serial path. -/
def execGroupAgg (ho : HashOrder) (env : Env) (stmt : SelectStmt Q) (parts : List Partition) :
    Except String QueryResult := do
  match stmt.groupBy.getD [] with
  | [key] =>
    if key.column = "symbol" ∧ key.xbarBucket = 0 ∧ key.dateTruncBucket = 0 then
      let (g, scanned) ← parts.foldlM (groupBySymbol env stmt) (∅, 0)
      pure (groupResult stmt aggName [key]
        ((ho.order g.entries).map fun e => groupRow 0 stmt [e.1] e.2) scanned)
    else
      let (c, scanned) ← parts.foldlM
        (groupBySingle env stmt (fun part idx => bucketed key (singleKey key part idx))
          (sampledRows env stmt)) ({}, 0)
      pure (groupResult stmt groupAggName [key]
        ((ho.order (c.groups stmt).entries).map fun e => groupRow 0 stmt [e.1] e.2) scanned)
  | keys =>
    let (g, scanned) ← parts.foldlM
      (groupByMulti env multiLoop stmt
        (fun part idx => keys.map fun key => bucketed key (multiKey key part idx))
        (sampledRows env stmt)) (∅, 0)
    pure (groupResult stmt groupAggName keys
      ((ho.order g.entries).map fun e => groupRow 0 stmt e.1 e.2) scanned)

end Zepto.Sql
