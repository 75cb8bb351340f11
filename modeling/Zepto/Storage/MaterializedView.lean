import Mathlib.Data.List.AList
import Mathlib.Data.Prod.Lex
import Zepto.Common.Types
import Zepto.Lib.SortedGroups

/-!
# Materialized views

A view keeps one bucket of running aggregates for each symbol and time bar. `onTick` adds a tick
to every registered view, whatever table the tick belongs to; `queryView` lists the buckets by
symbol and bar. A view starts empty, and then answers with the batch aggregation of the ticks since
(`queryView_onTicks`).
-/

namespace Zepto.Storage

open Zepto.Lib

inductive MVAggType where
  | sum
  | count
  | min
  | max
  | first
  | last
  deriving DecidableEq

structure MVColumnDef where
  name : String
  agg : MVAggType
  sourceCol : String
  deriving DecidableEq

structure MVDef where
  sourceTable : String
  groupBy : List String := []
  /-- The width of a time bar in nanoseconds, 0 for none. -/
  xbarBucket : Int := 0
  columns : List MVColumnDef
  deriving DecidableEq

/-- The running value and the number of ticks of each column. -/
abbrev MVBucket := List (Int × Nat)

structure ViewState where
  spec : MVDef
  /-- The buckets by symbol and start of the time bar. -/
  buckets : SortedMap (Int ×ₗ Int) MVBucket := .empty

abbrev Views := AList (fun _ : String => ViewState)

/-- The value of a column before the first tick of its bucket. -/
def MVAggType.start : MVAggType → Int
  | .min => int64Max
  | .max => int64Min
  | _ => 0

def MVAggType.update (agg : MVAggType) (src : Int) (v : Int) (count : Nat) : Int :=
  match agg with
  | .sum => wrap64 (v + src)
  | .count => wrap64 (v + 1)
  | .min => if src < v then src else v
  | .max => if src > v then src else v
  | .first => if count = 0 then src else v
  | .last => src

/-- The field of the tick a column aggregates: price, volume, or 0. -/
def MVColumnDef.source (col : MVColumnDef) (price volume : Int) : Int :=
  if col.sourceCol = "price" then price else if col.sourceCol = "volume" then volume else 0

def updateBucket (spec : MVDef) (price volume : Int) (bucket : MVBucket) : MVBucket :=
  .zipWith (fun col (v, count) => (col.agg.update (col.source price volume) v count, count + 1))
    spec.columns bucket

def newBucket (spec : MVDef) : MVBucket := spec.columns.map fun col => (col.agg.start, 0)

/-- The start of the time bar of a timestamp, 0 without bars. -/
def MVDef.timeKey (spec : MVDef) (ts : Int) : Int :=
  if spec.xbarBucket > 0 then ts.tdiv spec.xbarBucket * spec.xbarBucket else 0

/-- A tick on one view; the symbol goes through a 32-bit signed number. -/
def ViewState.onTick (view : ViewState) (symbol : SymbolId) (ts price volume : Int) : ViewState :=
  let key := toLex (symbol.toInt, view.spec.timeKey ts)
  let bucket := (view.buckets.lookup key).getD (newBucket view.spec)
  { view with buckets := view.buckets.insert key (updateBucket view.spec price volume bucket) }

/-- `on_tick`: every view takes the tick. -/
def Views.onTick (views : Views) (symbol : SymbolId) (ts price volume : Int) : Views :=
  ⟨views.entries.map fun e => ⟨e.1, e.2.onTick symbol ts price volume⟩, by
    have := views.nodupKeys
    simpa only [List.NodupKeys, List.keys, List.map_map, Function.comp_def] using this⟩

/-- `create_view`: nothing happens if the name is taken. -/
def Views.createView (views : Views) (name : String) (spec : MVDef) : Views :=
  if (views.lookup name).isSome then views else views.insert name { spec }

structure ViewResult where
  columnNames : List String := []
  rows : List (List Int) := []
  deriving DecidableEq

/-- One result row: symbol, time bar if there are bars, then the columns. -/
def ViewState.row (view : ViewState) (key : Int ×ₗ Int) (bucket : MVBucket) : List Int :=
  (ofLex key).1 :: (if view.spec.xbarBucket > 0 then [(ofLex key).2] else []) ++
    bucket.map Prod.fst

def ViewState.result (view : ViewState) : ViewResult where
  columnNames := "symbol" :: (if view.spec.xbarBucket > 0 then ["bar"] else []) ++
    view.spec.columns.map MVColumnDef.name
  rows := view.buckets.entries.map fun e => view.row e.1 e.2

/-- `query`: the rows of a view by symbol and bar; empty for an unknown name. -/
def Views.queryView (views : Views) (name : String) : ViewResult :=
  match views.lookup name with
  | some view => view.result
  | none => {}

/-! ## Views against batch aggregation -/

/-- The arguments of a call of `on_tick`. -/
structure MVTick where
  symbol : SymbolId
  ts : Int64
  price : Int64
  volume : Int64

def Views.onTicks (views : Views) (ticks : List MVTick) : Views :=
  ticks.foldl (fun vs t => vs.onTick t.symbol t.ts.toInt t.price.toInt t.volume.toInt) views

/-- The aggregate of the values of a group, in the order they arrived. -/
def MVAggType.batch : MVAggType → List Int → Int
  | .sum, xs => wrap64 xs.sum
  | .count, xs => wrap64 xs.length
  | .min, xs => xs.min?.getD 0
  | .max, xs => xs.max?.getD 0
  | .first, xs => xs.head?.getD 0
  | .last, xs => xs.getLast?.getD 0

/-- The group of a tick: its symbol and its time bar. -/
def MVDef.group (spec : MVDef) (t : MVTick) : Int ×ₗ Int :=
  toLex (t.symbol.toInt, spec.timeKey t.ts.toInt)

/-- The row of a group from all ticks. -/
def MVDef.batchRow (spec : MVDef) (ticks : List MVTick) (key : Int ×ₗ Int) : List Int :=
  (ofLex key).1 :: (if spec.xbarBucket > 0 then [(ofLex key).2] else []) ++
    spec.columns.map fun col => col.agg.batch
      ((ticks.filter fun t => spec.group t = key).map fun t =>
        col.source t.price.toInt t.volume.toInt)

/-- One row for every group that occurs, by symbol and time bar. -/
def MVDef.batchRows (spec : MVDef) (ticks : List MVTick) : List (List Int) :=
  (ticks.map spec.group).toFinset.sort.map (spec.batchRow ticks)

section

open List

/-- Running a column over its values, from before the first one. -/
theorem MVAggType.foldl_update (agg : MVAggType) {x : Int} {xs : List Int}
    (hx : int64Min ≤ x ∧ x ≤ int64Max) :
    (x :: xs).foldl (fun s y => (agg.update y s.1 s.2, s.2 + 1)) (agg.start, 0) =
      (agg.batch (x :: xs), xs.length + 1) := by
  induction xs using reverseRecOn with
  | nil => cases agg <;> simp [update, start, batch] <;> omega
  | append_singleton xs y ih =>
    rw [← cons_append, foldl_append, ih]
    refine Prod.ext ?_ (by simp)
    cases agg with
    | sum => simp [update, batch, wrap64_add_left, add_assoc]
    | count => simp [update, batch, wrap64_add_left]
    | min | max =>
      simp only [update, batch, cons_append, min?_cons', max?_cons', foldl_append, foldl_cons,
        foldl_nil, Option.getD_some, min_def, max_def]
      split <;> split <;> omega
    | first => simp [update, batch]
    | last =>
      simp only [batch, getLast?_concat]
      rfl

theorem MVColumnDef.source_range (col : MVColumnDef) (t : MVTick) :
    let x := col.source t.price.toInt t.volume.toInt
    int64Min ≤ x ∧ x ≤ int64Max := by
  have hp := t.price.le_toInt
  have hp' := t.price.toInt_lt
  have hv := t.volume.le_toInt
  have hv' := t.volume.toInt_lt
  simp only [source, int64Min, int64Max]
  split
  · omega
  · split <;> omega

/-- A tick on the bucket of its group. -/
def MVDef.take (spec : MVDef) (bucket : MVBucket) (t : MVTick) : MVBucket :=
  updateBucket spec t.price.toInt t.volume.toInt bucket

theorem MVDef.foldl_take (spec : MVDef) (ticks : List MVTick) (f : MVColumnDef → Int × Nat) :
    ticks.foldl spec.take (spec.columns.map f) = spec.columns.map fun col =>
      (ticks.map fun t => col.source t.price.toInt t.volume.toInt).foldl
        (fun s y => (col.agg.update y s.1 s.2, s.2 + 1)) (f col) := by
  induction ticks generalizing f with
  | nil => rfl
  | cons t ticks ih =>
    rw [foldl_cons, take, updateBucket, zipWith_map_right, zipWith_self, ih]
    rfl

/-- The columns of a bucket that has taken ticks. -/
theorem MVDef.values_foldl_take (spec : MVDef) (t : MVTick) (ticks : List MVTick) :
    ((t :: ticks).foldl spec.take (newBucket spec)).map Prod.fst = spec.columns.map fun col =>
      col.agg.batch ((t :: ticks).map fun t => col.source t.price.toInt t.volume.toInt) := by
  rw [newBucket, foldl_take, map_map]
  refine map_congr_left fun col _ => ?_
  rw [Function.comp_apply, map_cons, MVAggType.foldl_update _ (col.source_range t)]

/-- A tick on one view. -/
def ViewState.tick (view : ViewState) (t : MVTick) : ViewState :=
  view.onTick t.symbol t.ts.toInt t.price.toInt t.volume.toInt

theorem Views.lookup_onTicks (views : Views) (name : String) (ticks : List MVTick) :
    (views.onTicks ticks).lookup name = (views.lookup name).map (ticks.foldl .tick) := by
  unfold onTicks
  induction ticks generalizing views with
  | nil => simp
  | cons t ticks ih =>
    rw [foldl_cons, ih]
    have htick := dlookup_map₂ (l := views.entries) (f := fun _ v => ViewState.tick v t) name
    rw [show AList.lookup name (views.onTick _ _ _ _) = _ from htick, Option.map_map]
    rfl

theorem ViewState.foldl_tick (view : ViewState) (ticks : List MVTick) :
    ticks.foldl tick view = mk view.spec (ticks.foldl
      (.groupInto view.spec.group (fun _ => newBucket view.spec) view.spec.take)
      view.buckets) := by
  induction ticks generalizing view with
  | nil => rfl
  | cons t ticks ih => exact ih _

/-- A view answers with the batch aggregation of the ticks since it was created. -/
theorem queryView_onTicks (views : Views) (name : String) (spec : MVDef)
    (hnew : views.lookup name = none) (ticks : List MVTick) :
    (((views.createView name spec).onTicks ticks).queryView name).rows = spec.batchRows ticks := by
  have hview : (views.createView name spec).lookup name = some { spec } := by
    simp [Views.createView, hnew]
  have hentries : (SortedMap.groupSorted spec.group (fun _ => newBucket spec) spec.take
      ticks).entries = _ :=
    SortedMap.entries_groupSorted
      (f := fun key => (ticks.filter fun t => spec.group t = key).foldl spec.take (newBucket spec))
      fun key x xs h => by rw [h]
  rw [SortedMap.groupSorted] at hentries
  rw [Views.queryView, Views.lookup_onTicks, hview, Option.map_some, ViewState.foldl_tick]
  simp only [ViewState.result, hentries, map_map]
  refine map_congr_left fun key hkey => ?_
  rw [Finset.mem_sort, mem_toFinset, mem_map] at hkey
  obtain ⟨t, ht, rfl⟩ := hkey
  simp only [Function.comp_apply, ViewState.row, MVDef.batchRow]
  cases hgroup : ticks.filter fun u => spec.group u = spec.group t with
  | nil => simpa using filter_eq_nil_iff.mp hgroup t ht
  | cons x xs => rw [spec.values_foldl_take]

end

/-- A view of trading volumes per symbol. -/
theorem queryView_onTicks_volume :
    let spec : MVDef :=
      { sourceTable := "trades", groupBy := ["symbol"], columns := [⟨"total", .sum, "volume"⟩] }
    let ticks : List MVTick := [⟨1, 5, 10, 2⟩, ⟨2, 6, 11, 4⟩, ⟨1, 7, 12, 8⟩]
    AList.lookup "volumes" (∅ : Views) = none ∧
      ((((∅ : Views).createView "volumes" spec).onTicks ticks).queryView "volumes").rows =
        spec.batchRows ticks :=
  ⟨rfl, queryView_onTicks ∅ "volumes" _ rfl _⟩

end Zepto.Storage
