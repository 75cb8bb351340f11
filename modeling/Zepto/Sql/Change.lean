import Zepto.Sql.Meaning

/-!
# The loop of a data change

`exec_update` and `exec_delete` walk over the partitions of the table in the same way: skip the
partitions the symbol filter excludes and those without rows, evaluate the `WHERE`, change the
matching rows, count them. `changePartitions` is this loop with the change as a parameter. An
exception ends it and leaves the partitions before it changed.
-/

namespace Zepto.Sql

open Zepto.Lib Zepto.Storage

variable {Q : Type}

structure RowChange where
  apply : Partition → List Nat → Partition
  key_apply : ∀ p rows, (apply p rows).key = p.key
  apply_nil : ∀ p, apply p [] = p

section

variable (env : Env) (dict : StringDictionary) (w : Option (Expr Q)) (inTable : Partition → Bool)
  (change : RowChange)

/-- The partitions after the loop and the number of changed rows. -/
def changePartitions : List Partition → List Partition × Except String Nat
  | [] => ([], .ok 0)
  | p :: ps =>
    if !inTable p || !passesSymbolFilter dict w p || p.numRows = 0 then
      (p :: (changePartitions ps).1, (changePartitions ps).2)
    else match evalWhere env p p.numRows w with
      | .error e => (p :: ps, .error e)
      | .ok rows =>
        (change.apply p rows :: (changePartitions ps).1,
          (changePartitions ps).2.map (rows.length + ·))

def changedPartition (p : Partition) : Partition :=
  if inTable p then change.apply p (selectedRows env dict w p) else p

def changedCount (p : Partition) : Nat :=
  if inTable p then (selectedRows env dict w p).length else 0

def ChangeOk (p : Partition) : Prop :=
  inTable p = true → passesSymbolFilter dict w p = true → WhereOk env p w

variable {env dict w inTable change}

variable {p : Partition} {ps : List Partition}

theorem changePartitions_keys (ps : List Partition) :
    (changePartitions env dict w inTable change ps).1.map Partition.key = ps.map Partition.key := by
  induction ps with
  | nil => rfl
  | cons p ps ih =>
    unfold changePartitions
    split
    · simp [ih]
    · split
      · rfl
      · simp [ih, change.key_apply]

theorem selectedRows_of_skipped (hin : inTable p)
    (hskip : (!inTable p || !passesSymbolFilter dict w p || decide (p.numRows = 0))) :
    selectedRows env dict w p = [] := by
  simp only [hin, Bool.not_true, Bool.false_or, Bool.or_eq_true, Bool.not_eq_eq_eq_not,
    decide_eq_true_eq] at hskip
  rcases hskip with hfilter | hrows
  · simp [selectedRows, hfilter]
  · have hsub := selectedRows_sublist env dict w p
    rw [hrows] at hsub
    exact List.sublist_nil.mp hsub

theorem changedPartition_of_skipped (env : Env) (change : RowChange)
    (hskip : (!inTable p || !passesSymbolFilter dict w p || decide (p.numRows = 0))) :
    changedPartition env dict w inTable change p = p ∧ changedCount env dict w inTable p = 0 := by
  unfold changedPartition changedCount
  by_cases hin : inTable p
  · rw [if_pos hin, if_pos hin, selectedRows_of_skipped hin hskip]
    exact ⟨change.apply_nil p, rfl⟩
  · rw [if_neg hin, if_neg hin]
    exact ⟨rfl, rfl⟩

theorem evalWhere_of_scanned
    (hscan : ¬(!inTable p || !passesSymbolFilter dict w p || decide (p.numRows = 0)))
    {rows : List Nat} : evalWhere env p p.numRows w = .ok rows ↔
      ChangeOk env dict w inTable p ∧ rows = selectedRows env dict w p := by
  simp only [Bool.or_eq_true, Bool.not_eq_eq_eq_not, Bool.not_true, not_or] at hscan
  obtain ⟨⟨hin, hfilter⟩, -⟩ := hscan
  rw [evalWhere_eq_ok]
  simp [ChangeOk, selectedRows, hin, hfilter]

theorem changePartitions_of_ok (h : ∀ p ∈ ps, ChangeOk env dict w inTable p) :
    changePartitions env dict w inTable change ps =
      (ps.map (changedPartition env dict w inTable change),
        .ok (ps.map (changedCount env dict w inTable)).sum) := by
  induction ps with
  | nil => rfl
  | cons p ps ih =>
    rw [List.forall_mem_cons] at h
    unfold changePartitions
    rw [ih h.2]
    split_ifs with hskip
    · obtain ⟨hp, hc⟩ := changedPartition_of_skipped env change hskip
      simp [hp, hc]
    have hrows := (evalWhere_of_scanned hskip).mpr ⟨h.1, rfl⟩
    have hin : inTable p := by
      by_contra hin
      simp [hin] at hskip
    rw [hrows]
    simp [changedPartition, changedCount, hin, Except.map]

end

def countResult (name : String) (n : Nat) : QueryResult :=
  { columnNames := [name], columnTypes := [.int64], rows := [[(n : Int)]] }

def changeTable (env : Env) (db : Database) (table : String) (w : Option (Expr Q))
    (change : RowChange) (name : String) : Except String QueryResult × Database :=
  let r := changePartitions env db.symbolDict w (db.inTable table) change db.partitions
  (r.2.map (countResult name),
    { db with
      partitions := r.1
      keys_nodup := by
        rw [changePartitions_keys]
        exact db.keys_nodup })

section

variable {env : Env} {db : Database} {table : String} {w : Option (Expr Q)} {change : RowChange}
  {name : String}

section

variable (h : ∀ p ∈ db.partitions, ChangeOk env db.symbolDict w (db.inTable table) p)

include h

/-- Without exceptions a data change goes through the partitions and counts. -/
theorem changeTable_of_ok : (changeTable env db table w change name).1 = .ok (countResult name
      (db.partitions.map (changedCount env db.symbolDict w (db.inTable table))).sum) ∧
    (changeTable env db table w change name).2.partitions =
      db.partitions.map (changedPartition env db.symbolDict w (db.inTable table) change) := by
  simp [changeTable, changePartitions_of_ok h, Except.map]

theorem forall₂_changeTable {K : Partition → Partition → Prop} :
    List.Forall₂ (fun p p' => if db.inTable table p then K p p' else p' = p) db.partitions
        (changeTable env db table w change name).2.partitions ↔
      ∀ p ∈ db.partitions, db.inTable table p →
        K p (change.apply p (selectedRows env db.symbolDict w p)) := by
  rw [(changeTable_of_ok h).2, List.forall₂_map_right_iff, List.forall₂_same]
  refine forall₂_congr fun p _ => ?_
  by_cases hin : db.inTable table p <;> simp [changedPartition, hin]

end

end

end Zepto.Sql
