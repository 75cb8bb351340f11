import Zepto.Storage.Contents

/-!
# Partitions of a time range

`get_or_create` files a row under the hour its timestamp is truncated to, towards zero, and
`get_partitions_for_time_range` compares that hour with the range. A row before 1970 is filed
under the end of its hour, and the last hour of the 64-bit range has no end.
-/

namespace Zepto.Storage

open Zepto.Lib List

/-- A row by what decides its partition. -/
structure FiledRow where
  tableId : TableId
  symbolId : SymbolId
  ts : Int64
  deriving DecidableEq

def FiledRow.key (r : FiledRow) : PartitionKey :=
  ⟨r.tableId, r.symbolId, toHourEpoch r.ts.toInt⟩

def getOrCreate (arenaSize : Fin (2 ^ 32)) (db : Database) (key : PartitionKey) : Database :=
  (db.editPartition arenaSize key ⟨fun p => ((), p), fun _ => rfl⟩).2

/-- The partitions that exist once the rows are filed. -/
def filed (arenaSize : Fin (2 ^ 32)) (rows : List FiledRow) : Database :=
  rows.foldl (fun db r => getOrCreate arenaSize db r.key)
    { partitions := [], keys_nodup := nodup_nil }

/-- The range of a query finds the partition of every row of the table it asks for. -/
def RangeComplete (arenaSize : Fin (2 ^ 32)) (rows : List FiledRow) (table : TableId)
    (lo hi : Int64) : Prop :=
  ∀ r ∈ rows, r.tableId = table → lo ≤ r.ts → r.ts ≤ hi →
    ∃ p ∈ partitionsForTimeRange (filed arenaSize rows).partitions (some table) lo.toInt hi.toInt,
      p.key = r.key

/-- The first nanosecond of the last hour that 64 bits can name. -/
def lastHour : Int := 9223369200000000000

/-- A row before 1970 has the end of its hour in the range, and a row of the last hour is asked for
from almost the least timestamp on. -/
def Findable (lo hi : Int64) (r : FiledRow) : Prop :=
  (0 ≤ r.ts.toInt ∨ ∃ k : Int, r.ts.toInt ≤ k * nsPerHour ∧ k * nsPerHour ≤ hi.toInt) ∧
    (r.ts.toInt < lastHour ∨ lo.toInt < lastHour + nsPerHour - 2 ^ 64)

theorem toHourEpoch_of_nonneg {ts : Int} (h : 0 ≤ ts) :
    toHourEpoch ts ≤ ts ∧ ts < toHourEpoch ts + nsPerHour ∧ 0 ≤ toHourEpoch ts := by
  unfold toHourEpoch nsPerHour
  rw [Int.tdiv_eq_ediv_of_nonneg h]
  omega

theorem toHourEpoch_of_neg {ts : Int} (h : ts < 0) :
    ts ≤ toHourEpoch ts ∧ toHourEpoch ts < ts + nsPerHour ∧ toHourEpoch ts ≤ 0 := by
  unfold toHourEpoch nsPerHour
  rw [← neg_neg ts, Int.neg_tdiv, Int.tdiv_eq_ediv_of_nonneg (by omega)]
  omega

/-- The end of the hour a row is filed under, as 64 bits have it. -/
theorem hour_end (ts : Int64) : wrap64 (toHourEpoch ts.toInt + nsPerHour) =
    if ts.toInt < lastHour then toHourEpoch ts.toInt + nsPerHour
    else lastHour + nsPerHour - 2 ^ 64 := by
  have hmin := ts.le_toInt
  have hmax := ts.toInt_lt
  have hpos := @toHourEpoch_of_nonneg ts.toInt
  have hneg := @toHourEpoch_of_neg ts.toInt
  have hmul : toHourEpoch ts.toInt = ts.toInt.tdiv nsPerHour * nsPerHour := rfl
  generalize toHourEpoch ts.toInt = hour at *
  unfold lastHour nsPerHour at *
  split
  · refine signed_unsigned64 ?_ ?_
    · unfold int64Min
      omega
    · unfold int64Max
      omega
  · obtain rfl : hour = 9223369200000000000 := by omega
    rfl

theorem hourOverlaps_iff {p : Partition} {r : FiledRow} {lo hi : Int64}
    (hp : p.key = r.key) (hlo : lo ≤ r.ts) (hhi : r.ts ≤ hi) :
    hourOverlaps p lo.toInt hi.toInt ↔ Findable lo hi r := by
  rw [Int64.le_iff_toInt_le] at hlo hhi
  have hpos := @toHourEpoch_of_nonneg r.ts.toInt
  have hneg := @toHourEpoch_of_neg r.ts.toInt
  have hstart : toHourEpoch r.ts.toInt ≤ hi.toInt ↔
      0 ≤ r.ts.toInt ∨ ∃ k : Int, r.ts.toInt ≤ k * nsPerHour ∧ k * nsPerHour ≤ hi.toInt := by
    constructor
    · intro h
      by_cases h0 : 0 ≤ r.ts.toInt
      · exact .inl h0
      · exact .inr ⟨r.ts.toInt.tdiv nsPerHour, (hneg (by omega)).1, h⟩
    · rintro (h0 | ⟨k, hk, hle⟩)
      · have := hpos h0
        omega
      · have hmul : toHourEpoch r.ts.toInt = r.ts.toInt.tdiv nsPerHour * nsPerHour := rfl
        unfold nsPerHour at *
        omega
  unfold hourOverlaps Findable
  rw [hp, FiledRow.key, hour_end, Bool.and_eq_true, decide_eq_true_eq, decide_eq_true_eq, hstart]
  refine and_congr .rfl ?_
  clear hstart
  by_cases hlast : r.ts.toInt < lastHour
  · rw [if_pos hlast]
    omega
  · rw [if_neg hlast]
    omega

theorem partitionAt_foldl {arenaSize : Fin (2 ^ 32)} {rows : List FiledRow} {r : FiledRow}
    {db : Database} (h : r ∈ rows ∨ (db.partitionAt r.key).isSome) :
    ((rows.foldl (fun db r => getOrCreate arenaSize db r.key) db).partitionAt r.key).isSome := by
  induction rows generalizing db with
  | nil => simpa using h
  | cons q rows ih =>
    refine ih ?_
    unfold getOrCreate
    rw [(Database.editPartition_spec _ _ _ _).2]
    rcases h with h | h
    · rcases mem_cons.mp h with rfl | h
      · exact .inr (by simp)
      · exact .inl h
    · refine .inr ?_
      split
      · rfl
      · exact h

theorem exists_filed (arenaSize : Fin (2 ^ 32)) {rows : List FiledRow} {r : FiledRow}
    (h : r ∈ rows) : ∃ p ∈ (filed arenaSize rows).partitions, p.key = r.key := by
  obtain ⟨p, hp⟩ := Option.isSome_iff_exists.mp (partitionAt_foldl (.inl h))
  exact ⟨p, mem_of_find?_eq_some hp, by simpa using find?_some hp⟩

/-- Exactly the ranges that every row in them is findable in are complete. -/
theorem rangeComplete_iff (arenaSize : Fin (2 ^ 32)) (rows : List FiledRow) (table : TableId)
    (lo hi : Int64) :
    RangeComplete arenaSize rows table lo hi ↔
      ∀ r ∈ rows, r.tableId = table → lo ≤ r.ts → r.ts ≤ hi → Findable lo hi r := by
  refine forall₂_congr fun r hr => forall_congr' fun htable => ?_
  refine forall₂_congr fun hlo hhi => ?_
  constructor
  · rintro ⟨p, hp, hkey⟩
    rw [← hourOverlaps_iff hkey hlo hhi]
    simpa using (Bool.and_eq_true_iff.mp (mem_filter.mp hp).2).2
  · intro hfind
    obtain ⟨p, hp, hkey⟩ := exists_filed arenaSize hr
    refine ⟨p, mem_filter.mpr ⟨hp, ?_⟩, hkey⟩
    have hover := (hourOverlaps_iff hkey hlo hhi).mpr hfind
    simp [hkey, FiledRow.key, htable, hover]

/-- The row of one nanosecond before 1970 is filed under 1970. -/
theorem rangeComplete_before_epoch : ¬RangeComplete 1 [⟨1, 1, -1⟩] 1 (-1) (-1) := by
  intro h
  obtain ⟨p, hp, hkey⟩ := h _ (mem_singleton_self _) rfl (by decide) (by decide)
  have hover := (Bool.and_eq_true_iff.mp (mem_filter.mp hp).2).2
  rw [hourOverlaps, hkey] at hover
  revert hover
  decide

end Zepto.Storage
