import Mathlib.Data.List.Count
import Zepto.Lib.Grouping
import Zepto.Ai.Records

/-!
# The index of embeddings

`SparseProjectionAnnIndex` and `IvfAnnIndex` (`ann_index.cpp`) keep their entries alike: by
partition, with a flag per entry that a removal clears and a map from rows to entries. How they find
neighbours is left out. An index stands for the set of its active pairs of a partition key and a
row; `active_add`, `active_remove` and `active_updateRowId` say what the operations do to it.
-/

namespace Zepto.Ai

open Option List Zepto.Lib AList

inductive AnnIndexKind where
  | sparseProjection
  | hnsw
  | ivf
  deriving DecidableEq

/-- The `Partition` of an index. -/
structure Partition where
  rowIds : List Nat := []
  active : List Bool := []
  rowToEntry : AList (fun _ : Nat => Nat) := ∅
  activeCount : Nat := 0

structure AnnIndex where
  dimension : Nat := 0
  partitions : AList (fun _ : Bytes => Partition) := ∅

/-- `hnsw_ann_available`: the library is an option of the build that is off. -/
def hnswAnnAvailable : Bool := false

def makeAnnIndex (kind : AnnIndexKind) : Option AnnIndex :=
  if kind = .hnsw ∧ hnswAnnAvailable = false then none else some {}

namespace Partition

/-- The end of `add`, in a partition that does not have the row. -/
def add (p : Partition) (row : Nat) : Option Partition :=
  if row ∈ p.rowToEntry then none
  else some
    { rowIds := p.rowIds ++ [row]
      active := p.active ++ [true]
      rowToEntry := p.rowToEntry.insert row p.rowIds.length
      activeCount := p.activeCount + 1 }

def entryOf (p : Partition) (row : Nat) : Option Nat :=
  (p.rowToEntry.lookup row).filter fun i => p.active[i]? = some true

def remove (p : Partition) (row : Nat) : Option Partition :=
  (p.entryOf row).map fun i =>
    { p with
      active := p.active.set i false
      rowToEntry := p.rowToEntry.erase row
      activeCount := p.activeCount - 1 }

def updateRowId (p : Partition) (oldRow newRow : Nat) : Option Partition :=
  if newRow ∈ p.rowToEntry then none
  else (p.entryOf oldRow).map fun i =>
    { p with
      rowIds := p.rowIds.set i newRow
      rowToEntry := (p.rowToEntry.erase oldRow).insert newRow i }

def EntryAt (p : Partition) (row i : Nat) : Prop :=
  p.rowIds[i]? = some row ∧ p.active[i]? = some true

def Active (p : Partition) (row : Nat) : Prop := ∃ i, p.EntryAt row i

/-- The map and the count agree with the flags. -/
structure Valid (p : Partition) : Prop where
  length_eq : p.active.length = p.rowIds.length
  lookup_iff : ∀ row i, p.rowToEntry.lookup row = some i ↔ p.EntryAt row i
  count_eq : p.activeCount = p.active.count true

variable {p p' : Partition} {row row' i : Nat}

theorem valid_empty : Valid {} where
  length_eq := rfl
  lookup_iff row i := by simp [EntryAt]
  count_eq := rfl

theorem not_active_empty : ¬ Active {} row := by
  rintro ⟨i, h, -⟩
  simp at h

namespace Valid

theorem mem_iff (h : p.Valid) : row ∈ p.rowToEntry ↔ p.Active row := by
  rw [← lookup_isSome, isSome_iff_exists]
  exact exists_congr fun i => h.lookup_iff row i

theorem entryOf_eq (h : p.Valid) : p.entryOf row = p.rowToEntry.lookup row := by
  unfold entryOf
  cases hl : p.rowToEntry.lookup row with
  | none => rfl
  | some i => simp [((h.lookup_iff row i).mp hl).2]

theorem entryAt_unique (h : p.Valid) {j : Nat} (hi : p.EntryAt row i) (hj : p.EntryAt row j) :
    i = j := by
  rw [← h.lookup_iff] at hi hj
  exact some.inj (hi.symm.trans hj)

end Valid

theorem add_eq_none_iff (h : p.Valid) : p.add row = none ↔ p.Active row := by
  rw [← h.mem_iff, add]
  all_goals simp

section

variable (h : p.add row = some p') (hp : p.Valid)

include h hp

theorem entryAt_add (row' i : Nat) :
    p'.EntryAt row' i ↔ p.EntryAt row' i ∨ row' = row ∧ i = p.rowIds.length := by
  unfold add at h
  split at h
  · cases h
  rw [← some.inj h]
  have hlen := hp.length_eq
  simp only [EntryAt, getElem?_append]
  by_cases hi : i < p.rowIds.length
  · rw [if_pos hi, if_pos (by omega)]
    constructor
    · exact .inl
    · rintro (h | ⟨-, rfl⟩)
      · exact h
      · omega
  · rw [hlen, getElem?_eq_none (by omega : p.rowIds.length ≤ i)]
    by_cases hi' : i = p.rowIds.length
    · subst hi'
      simp [eq_comm]
    · have : i - p.rowIds.length ≠ 0 := by omega
      simp [this, hi']

theorem valid_add : p'.Valid := by
  have hentry := entryAt_add h hp
  have hnot : ¬ p.Active row := by
    rw [← add_eq_none_iff hp, h]
    exact nofun
  unfold add at h
  split at h
  · cases h
  rw [← some.inj h] at hentry ⊢
  refine ⟨by simp [hp.length_eq], fun row' i => ?_, by simp [hp.count_eq]⟩
  rw [hentry row' i, ← hp.lookup_iff]
  by_cases hrow : row' = row
  · subst hrow
    rw [lookup_insert, some.injEq]
    constructor
    · exact fun h => .inr ⟨rfl, h.symm⟩
    · rintro (h | h)
      · exact absurd ⟨i, (hp.lookup_iff row' i).mp h⟩ hnot
      · exact h.2.symm
  · simp [hrow]

theorem active_add : p'.Active row' ↔ p.Active row' ∨ row' = row := by
  simp only [Active, entryAt_add h hp, exists_or]
  simp

end

theorem remove_eq_none_iff (hp : p.Valid) : p.remove row = none ↔ ¬ p.Active row := by
  rw [remove, map_eq_none_iff, hp.entryOf_eq, ← hp.mem_iff, lookup_eq_none]

section

variable (h : p.remove row = some p') (hp : p.Valid)

include h hp

theorem entryAt_remove (row' i : Nat) : p'.EntryAt row' i ↔ p.EntryAt row' i ∧ row' ≠ row := by
  obtain ⟨j, hj, rfl⟩ := map_eq_some_iff.mp h
  rw [hp.entryOf_eq, hp.lookup_iff] at hj
  simp only [EntryAt, getElem?_set]
  by_cases hij : j = i
  · subst hij
    have hlt : j < p.active.length := (List.getElem?_eq_some_iff.mp hj.2).1
    simp only [if_pos hlt, ↓reduceIte, some.injEq, Bool.false_eq_true, and_false,
      false_iff, not_and, not_not]
    intro h
    exact some.inj (h.1.symm.trans hj.1)
  · rw [if_neg hij]
    refine ⟨fun hat => ⟨hat, fun hrow => ?_⟩, .left⟩
    rw [hrow] at hat
    exact hij (hp.entryAt_unique hj hat)

theorem valid_remove : p'.Valid := by
  have hentry := entryAt_remove h hp
  obtain ⟨j, hj, rfl⟩ := map_eq_some_iff.mp h
  rw [hp.entryOf_eq, hp.lookup_iff] at hj
  obtain ⟨hlt, htrue⟩ := List.getElem?_eq_some_iff.mp hj.2
  refine ⟨by simp [hp.length_eq], fun row' i => ?_, ?_⟩
  · rw [hentry row' i, ← hp.lookup_iff]
    by_cases hrow : row' = row
    · subst hrow
      simp
    · simp [hrow]
  · show p.activeCount - 1 = (p.active.set j false).count true
    rw [hp.count_eq, count_set hlt, htrue]
    simp

theorem active_remove : p'.Active row' ↔ p.Active row' ∧ row' ≠ row := by
  simp [Active, entryAt_remove h hp]

end

theorem updateRowId_eq_none_iff (hp : p.Valid) (row newRow : Nat) :
    p.updateRowId row newRow = none ↔ p.Active newRow ∨ ¬ p.Active row := by
  rw [updateRowId, ← hp.mem_iff, ← hp.mem_iff, ← lookup_eq_none, ← hp.entryOf_eq]
  split
  all_goals
    rename_i h
    simp [h]

section UpdateRowId

variable {newRow : Nat} (h : p.updateRowId row newRow = some p') (hp : p.Valid)

include h hp

theorem active_of_updateRowId : p.Active row ∧ ¬ p.Active newRow := by
  have hnone := (updateRowId_eq_none_iff hp row newRow).not
  rw [h, not_or, not_not] at hnone
  exact (hnone.mp nofun).symm

theorem entryAt_updateRowId (row' i : Nat) :
    p'.EntryAt row' i ↔ p.EntryAt row' i ∧ row' ≠ row ∨ row' = newRow ∧ p.EntryAt row i := by
  unfold updateRowId at h
  split at h
  · cases h
  obtain ⟨j, hj, rfl⟩ := map_eq_some_iff.mp h
  rw [hp.entryOf_eq, hp.lookup_iff] at hj
  simp only [EntryAt, getElem?_set]
  by_cases hij : j = i
  · subst hij
    have hlt : j < p.rowIds.length := (List.getElem?_eq_some_iff.mp hj.1).1
    simp only [if_pos hlt, ↓reduceIte, some.injEq, hj.1, hj.2, and_true]
    constructor
    · exact fun h => .inr h.symm
    · rintro (⟨h, hne⟩ | h)
      · exact absurd h.symm hne
      · exact h.symm
  · rw [if_neg hij]
    constructor
    · refine fun hat => .inl ⟨hat, fun hrow => ?_⟩
      rw [hrow] at hat
      exact hij (hp.entryAt_unique hj hat)
    · rintro (⟨hat, -⟩ | ⟨-, hat⟩)
      · exact hat
      · exact absurd (hp.entryAt_unique hj hat) hij

theorem valid_updateRowId : p'.Valid := by
  have hentry := entryAt_updateRowId h hp
  obtain ⟨-, hfresh⟩ := active_of_updateRowId h hp
  unfold updateRowId at h
  split at h
  · cases h
  obtain ⟨j, hj, rfl⟩ := map_eq_some_iff.mp h
  rw [hp.entryOf_eq, hp.lookup_iff] at hj
  refine ⟨by simp [hp.length_eq], fun row' i => ?_, hp.count_eq⟩
  rw [hentry row' i]
  by_cases hrow : row' = newRow
  · subst hrow
    rw [lookup_insert, some.injEq]
    constructor
    · rintro rfl
      exact .inr ⟨rfl, hj⟩
    · rintro (⟨h, -⟩ | ⟨-, h⟩)
      · exact absurd ⟨i, h⟩ hfresh
      · exact hp.entryAt_unique hj h
  · rw [lookup_insert_ne hrow]
    by_cases hold : row' = row
    · subst hold
      simp [hrow]
    · rw [lookup_erase_ne hold, hp.lookup_iff]
      simp [hold, hrow]

theorem active_updateRowId : p'.Active row' ↔ p.Active row' ∧ row' ≠ row ∨ row' = newRow := by
  simp only [Active, entryAt_updateRowId h hp, exists_or, exists_and_right, exists_and_left]
  exact or_congr_right (and_iff_left (active_of_updateRowId h hp).1)

end UpdateRowId

end Partition

namespace AnnIndex

/-- `add`. The first embedding fixes the dimension; `partitions_[key]` makes a missing partition. -/
def add (idx : AnnIndex) (key : Bytes) (row : Nat) (e : Embedding) : Bool × AnnIndex :=
  if e.isEmpty || (idx.dimension ≠ 0 && idx.dimension ≠ e.length) then (false, idx)
  else if (normalizeEmbedding e).isEmpty then (false, { idx with dimension := e.length })
  else
    let p := (idx.partitions.lookup key).getD {}
    match p.add row with
    | none => (false, ⟨e.length, idx.partitions.insert key p⟩)
    | some p => (true, ⟨e.length, idx.partitions.insert key p⟩)

/-- `remove`. A partition without active entries is dropped. -/
def remove (idx : AnnIndex) (key : Bytes) (row : Nat) : Bool × AnnIndex :=
  match (idx.partitions.lookup key).bind fun p => p.remove row with
  | none => (false, idx)
  | some p =>
    (true, { idx with partitions :=
      if p.activeCount = 0 then idx.partitions.erase key else idx.partitions.insert key p })

def updateRowId (idx : AnnIndex) (key : Bytes) (oldRow newRow : Nat) : Bool × AnnIndex :=
  if oldRow = newRow then (true, idx)
  else
    match (idx.partitions.lookup key).bind fun p => p.updateRowId oldRow newRow with
    | none => (false, idx)
    | some p => (true, { idx with partitions := idx.partitions.insert key p })

def Active (idx : AnnIndex) (key : Bytes) (row : Nat) : Prop :=
  ∃ p, idx.partitions.lookup key = some p ∧ p.Active row

def Valid (idx : AnnIndex) : Prop := ∀ key p, idx.partitions.lookup key = some p → p.Valid

variable {idx : AnnIndex} {key : Bytes} {row : Nat} {e : Embedding}

section

variable {d : Nat} {p : Partition} {newRow : Nat}

theorem valid_empty : Valid {} := by
  intro key p h
  simp at h

theorem not_active_empty : ¬ Active {} key row := by
  rintro ⟨p, h, -⟩
  simp at h

theorem active_insert {k : Bytes} {r : Nat} : Active ⟨d, idx.partitions.insert key p⟩ k r ↔
      if k = key then p.Active r else idx.Active k r := by
  unfold Active
  split_ifs with h
  · subst h
    simp
  · simp [lookup_insert_ne h]

theorem valid_insert (h : idx.Valid) (hp : p.Valid) : Valid ⟨d, idx.partitions.insert key p⟩ := by
  intro k q hq
  obtain ⟨-, rfl⟩ | ⟨-, hold⟩ := lookup_insert_cases hq
  · exact hp
  · exact h k q hold

theorem valid_getD (h : idx.Valid) (key : Bytes) : ((idx.partitions.lookup key).getD {}).Valid := by
  cases hl : idx.partitions.lookup key with
  | none => exact Partition.valid_empty
  | some p => exact h key p hl

theorem active_getD : ((idx.partitions.lookup key).getD {}).Active row ↔ idx.Active key row := by
  unfold Active
  cases hl : idx.partitions.lookup key with
  | none => simpa using Partition.not_active_empty
  | some p => simp

/-- When `add` reports success. -/
def Addable (idx : AnnIndex) (key : Bytes) (row : Nat) (e : Embedding) : Prop :=
  e ≠ [] ∧ (idx.dimension = 0 ∨ idx.dimension = e.length) ∧ e.hasNorm = true ∧
    ¬ idx.Active key row

theorem active_add (h : idx.Valid) (key : Bytes) (row : Nat) (e : Embedding) :
    (idx.add key row e).2.Valid ∧ ((idx.add key row e).1 ↔ idx.Addable key row e) ∧
      ∀ k r, (idx.add key row e).2.Active k r ↔
        idx.Active k r ∨ idx.Addable key row e ∧ k = key ∧ r = row := by
  unfold add
  split
  next hc =>
    have hno : ¬ idx.Addable key row e := by
      rintro ⟨he, hd, -, -⟩
      simp only [Bool.or_eq_true, List.isEmpty_iff, he, false_or, Bool.and_eq_true,
        decide_eq_true_eq] at hc
      omega
    simp [h, hno]
  rename_i hc
  simp only [Bool.or_eq_true, List.isEmpty_iff, Bool.and_eq_true, decide_eq_true_eq, not_or] at hc
  have hd : idx.dimension = 0 ∨ idx.dimension = e.length := by omega
  split_ifs with hn
  · rw [List.isEmpty_iff, normalizeEmbedding_eq_nil_iff] at hn
    have hno : ¬ idx.Addable key row e := by
      rintro ⟨he, -, hnorm, -⟩
      rw [hnorm] at hn
      rcases hn with hn | hn
      · exact he hn
      · cases hn
    exact ⟨h, by simp [hno], fun k r => by simp only [hno, false_and, or_false]; rfl⟩
  rw [List.isEmpty_iff, normalizeEmbedding_eq_nil_iff, not_or, Bool.not_eq_false] at hn
  have hadd : idx.Addable key row e ↔ ¬ idx.Active key row :=
    ⟨fun h => h.2.2.2, fun h => ⟨hc.1, hd, hn.2, h⟩⟩
  have hv := valid_getD h key
  rw [hadd]
  extract_lets p
  split
  next hp =>
    rw [Partition.add_eq_none_iff hv, active_getD] at hp
    refine ⟨valid_insert h hv, by simp [hp], fun k r => ?_⟩
    rw [active_insert, active_getD]
    split_ifs with hk
    · simp [hp, hk]
    · simp [hp]
  next p' hp =>
    have hnot : ¬ idx.Active key row := by
      rw [← active_getD, ← Partition.add_eq_none_iff hv, hp]
      exact nofun
    refine ⟨valid_insert h (Partition.valid_add hp hv), by simp [hnot], fun k r => ?_⟩
    rw [active_insert, Partition.active_add hp hv, active_getD]
    split_ifs with hk
    · simp [hnot, hk]
    · simp [hk]

theorem active_remove (h : idx.Valid) (key : Bytes) (row : Nat) :
    (idx.remove key row).2.Valid ∧ ((idx.remove key row).1 ↔ idx.Active key row) ∧
      ∀ k r, (idx.remove key row).2.Active k r ↔ idx.Active k r ∧ ¬ (k = key ∧ r = row) := by
  unfold remove
  split
  next hb =>
    have hno : ¬ idx.Active key row := by
      rintro ⟨p, hl, ha⟩
      rw [hl, bind_some, Partition.remove_eq_none_iff (h key p hl)] at hb
      exact hb ha
    refine ⟨h, by simp [hno], fun k r => ⟨fun hk => ⟨hk, ?_⟩, And.left⟩⟩
    rintro ⟨rfl, rfl⟩
    exact hno hk
  next p' hb =>
    obtain ⟨p, hl, hp⟩ := bind_eq_some_iff.mp hb
    have hv := h key p hl
    have hact : idx.Active key row := by
      refine ⟨p, hl, by_contra fun hno => ?_⟩
      rw [(Partition.remove_eq_none_iff hv).mpr hno] at hp
      cases hp
    have hv' := Partition.valid_remove hp hv
    have hkey : ∀ r, p'.Active r ↔ idx.Active key r ∧ r ≠ row := fun r => by
      rw [Partition.active_remove hp hv]
      simp [Active, hl]
    refine ⟨?_, by simp [hact], fun k r => ?_⟩
    · dsimp only
      split
      · exact fun k q hq => h k q (lookup_of_lookup_erase hq)
      · exact valid_insert h hv'
    · dsimp only
      split
      next hz =>
        have hgone (row : Nat) : ¬ p'.Active row := by
          rintro ⟨i, -, hi⟩
          rw [hv'.count_eq, count_eq_zero] at hz
          exact hz (mem_of_getElem? hi)
        by_cases hk : k = key
        · subst hk
          have hnot : ¬ Active ⟨idx.dimension, idx.partitions.erase k⟩ k r := by
            rintro ⟨q, hq, -⟩
            rw [lookup_erase] at hq
            cases hq
          refine ⟨fun h => absurd h hnot, fun ⟨ha, hne⟩ => ?_⟩
          exact absurd ((hkey r).mpr ⟨ha, fun hr => hne ⟨rfl, hr⟩⟩) (hgone r)
        · simp [Active, hk]
      · rw [active_insert, hkey]
        split_ifs with hk
        all_goals simp [hk]

theorem active_updateRowId (h : idx.Valid) (key : Bytes) (hne : row ≠ newRow) :
    (idx.updateRowId key row newRow).2.Valid ∧ ((idx.updateRowId key row newRow).1 ↔
        idx.Active key row ∧ ¬ idx.Active key newRow) ∧
      ((idx.updateRowId key row newRow).1 → ∀ k r, (idx.updateRowId key row newRow).2.Active k r ↔
          idx.Active k r ∧ ¬ (k = key ∧ r = row) ∨ k = key ∧ r = newRow) := by
  unfold updateRowId
  rw [if_neg hne]
  split
  next hb =>
    refine ⟨h, ⟨nofun, ?_⟩, nofun⟩
    rintro ⟨⟨p, hl, ha⟩, hno⟩
    rw [hl, bind_some, Partition.updateRowId_eq_none_iff (h key p hl) row newRow] at hb
    rcases hb with hb | hb
    · exact absurd ⟨p, hl, hb⟩ hno
    · exact absurd ha hb
  next p' hb =>
    obtain ⟨p, hl, hp⟩ := bind_eq_some_iff.mp hb
    have hv := h key p hl
    have hact : ∀ r, idx.Active key r ↔ p.Active r := fun r => by simp [Active, hl]
    refine ⟨valid_insert h (Partition.valid_updateRowId hp hv), ?_, fun _ k r => ?_⟩
    · rw [hact, hact]
      exact iff_of_true rfl (Partition.active_of_updateRowId hp hv)
    rw [active_insert, Partition.active_updateRowId hp hv, ← hact]
    split_ifs with hk
    all_goals simp [hk]

theorem dimension_add (idx : AnnIndex) (key : Bytes) (row : Nat) (e : Embedding) :
    (idx.add key row e).2.dimension = idx.dimension ∨
      (idx.dimension = 0 ∧ (idx.add key row e).2.dimension = e.length) := by
  unfold add
  split
  · exact .inl rfl
  rename_i hc
  simp only [Bool.or_eq_true, Bool.and_eq_true, decide_eq_true_eq] at hc
  have hd : e.length = idx.dimension ∨ idx.dimension = 0 := by omega
  split
  · exact hd.imp_right fun h => ⟨h, rfl⟩
  extract_lets p
  split <;> exact hd.imp_right fun h => ⟨h, rfl⟩

@[simp]
theorem dimension_remove : (idx.remove key row).2.dimension = idx.dimension := by
  unfold remove
  split <;> rfl

@[simp]
theorem dimension_updateRowId : (idx.updateRowId key row newRow).2.dimension = idx.dimension := by
  unfold updateRowId
  split
  · rfl
  · split <;> rfl

end

end AnnIndex

end Zepto.Ai
