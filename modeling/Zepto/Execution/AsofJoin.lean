import Zepto.Execution.HashJoin
import Zepto.Lib.BinarySearch
import Zepto.Lib.Loops

/-!
# Joins as of a time

`AsofJoinOperator::execute` pairs each left row with the latest right row of its key that is not
later (`asofJoinExecute_isAsof`). That is the join of longer lists of rows just when the other rows
do not matter (`IsAsof.append_iff`).
-/

namespace Zepto.Execution

open List Zepto.Lib

/-! ## The operator -/

/-- The key and the time of each row. -/
abbrev TimedRows := List (Int × Int)

def timeAt (r : TimedRows) (j : Nat) : Int := (r[j]?.map Prod.snd).getD 0

/-- `std::sort` of row numbers by the times of the rows. -/
structure TimeSort (r : TimedRows) where
  sort : List Nat → List Nat
  perm : ∀ g, (sort g).Perm g
  ascending : ∀ g, (sort g).Pairwise fun i j => timeAt r i ≤ timeAt r j

/-- The row before the `upper_bound` of the time in an ascending group. -/
def latest (r : TimedRows) (group : List Nat) (time : Int) : Option Nat :=
  let pos := upperBoundIdx (fun i => timeAt r (group.getD i 0)) group.length time
  if pos = 0 then none else group[pos - 1]?

/-- `AsofJoinOperator::execute`; none if a search in the map does not end. -/
def asofJoinExecute (hash : Int → Nat) (l r : TimedRows) (sorter : TimeSort r) :
    Option (List (Nat × Nat)) := do
  let groups ← FlatHashMap.ofKeys hash (r.map Prod.fst)
  let sorted : FlatHashMap := groups.map (.map (.map id sorter.sort))
  let rows ← l.zipIdx.mapM fun e => do
    let group ← sorted.find hash e.1.1
    some ((group.bind fun g => latest r g e.1.2).map fun j => (e.2, j))
  some (rows.filterMap id)

/-- The right row has the key of the left row and is not later. -/
def Qualifies (a b : Int × Int) : Prop := b.1 = a.1 ∧ b.2 ≤ a.2

instance (a b : Int × Int) : Decidable (Qualifies a b) := inferInstanceAs (Decidable (_ ∧ _))

/-- One pair for each left row with a right row that qualifies, in left order and with the latest
of them. -/
structure IsAsof (l r : TimedRows) (out : List (Nat × Nat)) : Prop where
  order : out.Pairwise fun p q => p.1 < q.1
  best : ∀ p ∈ out, ∃ a b, l[p.1]? = some a ∧ r[p.2]? = some b ∧ Qualifies a b ∧
    ∀ c ∈ r, Qualifies a c → c.2 ≤ b.2
  all : ∀ i a, l[i]? = some a → (∃ b ∈ r, Qualifies a b) → ∃ j, (i, j) ∈ out

section

variable {r : TimedRows}

theorem latest_spec {group : List Nat} (h : group.Pairwise fun i j => timeAt r i ≤ timeAt r j)
    (time : Int) :
    match latest r group time with
    | some j => j ∈ group ∧ timeAt r j ≤ time ∧
        ∀ i ∈ group, timeAt r i ≤ time → timeAt r i ≤ timeAt r j
    | none => ∀ i ∈ group, time < timeAt r i := by
  have hasc : ∀ i j, i ≤ j → j < group.length →
      timeAt r (group.getD i 0) ≤ timeAt r (group.getD j 0) := by
    intro i j hij hj
    rcases lt_or_eq_of_le hij with hlt | rfl
    · simpa [hj, lt_trans hlt hj] using pairwise_iff_getElem.mp h i j (lt_trans hlt hj) hj hlt
    · exact Int.le_refl _
  have hlt := fun i hi => lt_upperBoundIdx_iff hasc time (i := i) hi
  have hle : upperBoundIdx (fun i => timeAt r (group.getD i 0)) group.length time ≤ group.length :=
    partitionPoint_le _ _
  unfold latest
  generalize upperBoundIdx (fun i => timeAt r (group.getD i 0)) group.length time = pos at *
  cases pos with
  | zero =>
    intro i hi
    obtain ⟨k, hk, rfl⟩ := getElem_of_mem hi
    simpa [hk] using hlt k hk
  | succ pos =>
    have hget : group[pos]? = some (group.getD pos 0) := by simp [show pos < group.length from hle]
    simp only [Nat.add_sub_cancel, hget]
    refine ⟨mem_of_getElem? hget, (hlt pos hle).mp (Nat.lt_succ_self pos), fun i hi htime => ?_⟩
    obtain ⟨k, hk, rfl⟩ := getElem_of_mem hi
    have hk' : group[k] = group.getD k 0 := by simp [hk]
    rw [hk'] at htime ⊢
    exact hasc k pos (Nat.le_of_lt_succ ((hlt k hk).mpr htime)) hle

/-- What the loop finds for a left row. -/
def asofMatch (r : TimedRows) (sorter : TimeSort r) (a : Int × Int) : Option Nat :=
  ((bucketOf (r.map Prod.fst) a.1).map sorter.sort).bind fun g => latest r g a.2

def asofPairs (l r : TimedRows) (sorter : TimeSort r) : List (Nat × Nat) :=
  l.zipIdx.filterMap fun e => (asofMatch r sorter e.1).map (e.2, ·)

theorem asofMatch_spec (sorter : TimeSort r) (a : Int × Int) : match asofMatch r sorter a with
    | some j => ∃ b, r[j]? = some b ∧ Qualifies a b ∧ ∀ c ∈ r, Qualifies a c → c.2 ≤ b.2
    | none => ∀ c ∈ r, ¬Qualifies a c := by
  have hmem := @mem_bucketOf (r.map Prod.fst) a.1
  unfold asofMatch
  cases hb : bucketOf (r.map Prod.fst) a.1 with
  | none =>
    intro c hc hq
    obtain ⟨k, hk, rfl⟩ := getElem_of_mem hc
    have := (hmem k).mpr (by simp [hk, hq.1])
    simp [hb] at this
  | some bucket =>
    have hrows (c : Int × Int) (hc : c ∈ r) (hq : Qualifies a c) :
        ∃ k ∈ sorter.sort bucket, timeAt r k = c.2 := by
      obtain ⟨k, hk, rfl⟩ := getElem_of_mem hc
      refine ⟨k, (sorter.perm bucket).mem_iff.mpr ?_, by simp [timeAt, hk]⟩
      have := (hmem k).mpr (by simp [hk, hq.1])
      simpa [hb] using this
    have hspec := latest_spec (sorter.ascending bucket) a.2
    simp only [Option.map_some, Option.bind_some]
    cases hl : latest r (sorter.sort bucket) a.2 with
    | none =>
      rw [hl] at hspec
      intro c hc hq
      obtain ⟨k, hk, htime⟩ := hrows c hc hq
      exact Int.not_lt.mpr hq.2 (htime ▸ hspec k hk)
    | some j =>
      rw [hl] at hspec
      obtain ⟨hj, htime, hlast⟩ := hspec
      have hkey := (hmem j).mp (by simpa [hb] using (sorter.perm bucket).mem_iff.mp hj)
      obtain ⟨b, hrow, hbkey⟩ := Option.map_eq_some_iff.mp (getElem?_map (f := Prod.fst) .. ▸ hkey)
      have hbtime : timeAt r j = b.2 := by simp [timeAt, hrow]
      rw [hbtime] at htime hlast
      refine ⟨b, hrow, ⟨hbkey, htime⟩, fun c hc hq => ?_⟩
      obtain ⟨k, hk, hctime⟩ := hrows c hc hq
      exact hctime ▸ hlast k hk (hctime ▸ hq.2)

theorem FlatHashMap.find_map (hash : Int → Nat) (f : List Nat → List Nat) (t : FlatHashMap)
    (key : Int) : find hash (t.map (.map (.map id f))) key = (t.find hash key).map (.map f) := by
  have hentry (s : Nat) : entryAt (t.map (.map (.map id f))) s = (entryAt t s).map (.map id f) := by
    rw [entryAt, entryAt, getElem?_map]
    rcases t[s]? with _ | _ | e <;> rfl
  have hslot : slotOf hash (t.map (.map (.map id f))) key = slotOf hash t key := by
    unfold slotOf
    rw [length_map]
    refine congrArg (fun p => find? p _) (funext fun s => ?_)
    rw [stopsAt, stopsAt, hentry]
    cases entryAt t s <;> rfl
  rw [find, find, hslot]
  cases slotOf hash t key with
  | none => rfl
  | some s =>
    simp only [Option.map_some, hentry]
    cases entryAt t s <;> rfl

theorem asofJoinExecute_eq (hash : Int → Nat) (l r : TimedRows) (sorter : TimeSort r) :
    asofJoinExecute hash l r sorter = some (asofPairs l r sorter) := by
  obtain ⟨t, ht, hfind⟩ := FlatHashMap.ofKeys_find hash (r.map Prod.fst)
  rw [asofJoinExecute, ht]
  refine (congrArg (bind · fun rows => some (rows.filterMap id)) (mapM_ok (g :=
    fun e : (Int × Int) × Nat => (asofMatch r sorter e.1).map (e.2, ·)) fun e _ => ?_)).trans ?_
  · rw [FlatHashMap.find_map, hfind]
    rfl
  · exact congrArg some filterMap_map

theorem isAsof_asofPairs (l r : TimedRows) (sorter : TimeSort r) :
    IsAsof l r (asofPairs l r sorter) := by
  refine ⟨?_, fun p hp => ?_, fun i a hi hb => ?_⟩
  · have hnumbers : l.zipIdx.Pairwise fun e e' => e.2 < e'.2 := by
      rw [← pairwise_map (f := Prod.snd), zipIdx_map_snd]
      exact pairwise_lt_range'
    refine hnumbers.filterMap _ fun e e' hlt p hp q hq => ?_
    obtain ⟨_, -, rfl⟩ := Option.map_eq_some_iff.mp hp
    obtain ⟨_, -, rfl⟩ := Option.map_eq_some_iff.mp hq
    exact hlt
  · obtain ⟨⟨a, i⟩, he, hp⟩ := mem_filterMap.mp hp
    obtain ⟨j, hj, rfl⟩ := Option.map_eq_some_iff.mp hp
    have hspec := asofMatch_spec sorter a
    rw [hj] at hspec
    obtain ⟨b, hb⟩ := hspec
    exact ⟨a, b, mk_mem_zipIdx_iff_getElem?.mp he, hb⟩
  · have hspec := asofMatch_spec sorter a
    cases hj : asofMatch r sorter a with
    | none =>
      rw [hj] at hspec
      obtain ⟨b, hmem, hq⟩ := hb
      exact absurd hq (hspec b hmem)
    | some j =>
      exact ⟨j, mem_filterMap.mpr ⟨(a, i), mk_mem_zipIdx_iff_getElem?.mpr hi, by simp [hj]⟩⟩

end

/-- The operator joins as of the time, whatever way `std::sort` orders rows of one time. -/
theorem asofJoinExecute_isAsof (hash : Int → Nat) (l r : TimedRows) (sorter : TimeSort r) :
    ∃ out, asofJoinExecute hash l r sorter = some out ∧ IsAsof l r out :=
  ⟨_, asofJoinExecute_eq hash l r sorter, isAsof_asofPairs l r sorter⟩

/-! ## More rows -/

theorem IsAsof.append_iff {l r l' r' : TimedRows} {out : List (Nat × Nat)} (h : IsAsof l r out) :
    IsAsof (l ++ l') (r ++ r') out ↔ (∀ a ∈ l', ∀ b ∈ r ++ r', ¬Qualifies a b) ∧
      ∀ a ∈ l, ∀ b ∈ r', Qualifies a b → ∃ c ∈ r, Qualifies a c ∧ b.2 ≤ c.2 := by
  have hleft {α : Type} {l : List α} {i : Nat} {a : α} (l' : List α) (hi : l[i]? = some a) :
      (l ++ l')[i]? = some a := by
    rw [getElem?_append_left (List.getElem?_eq_some_iff.mp hi).1, hi]
  constructor
  · refine fun hall => ⟨fun a ha b hb hq => ?_, fun a ha b hb hq => ?_⟩
    · obtain ⟨i, hi, rfl⟩ := getElem_of_mem ha
      obtain ⟨j, hj⟩ := hall.all (l.length + i) _ (by simp [hi]) ⟨b, hb, hq⟩
      obtain ⟨_, _, hrow, -⟩ := h.best _ hj
      have := (List.getElem?_eq_some_iff.mp hrow).1
      omega
    · obtain ⟨i, hi⟩ := getElem?_of_mem ha
      obtain ⟨j, hj⟩ := hall.all i a (hleft _ hi) ⟨b, mem_append_right _ hb, hq⟩
      obtain ⟨a', c, ha', hc, hqc, -⟩ := h.best _ hj
      obtain ⟨a'', c', ha'', hc', -, hlast⟩ := hall.best _ hj
      cases hi.symm.trans ha'
      cases (hleft _ hi).symm.trans ha''
      cases (hleft _ hc).symm.trans hc'
      exact ⟨c, mem_of_getElem? hc, hqc, hlast b (mem_append_right _ hb) hq⟩
  · rintro ⟨houter, hinner⟩
    refine ⟨h.order, fun p hp => ?_, fun i a hi hb => ?_⟩
    · obtain ⟨a, b, ha, hb, hq, hlast⟩ := h.best p hp
      refine ⟨a, b, hleft _ ha, hleft _ hb, hq, fun c hc hqc => ?_⟩
      rcases mem_append.mp hc with hc | hc
      · exact hlast c hc hqc
      · obtain ⟨d, hd, hqd, hle⟩ := hinner a (mem_of_getElem? ha) c hc hqc
        exact Int.le_trans hle (hlast d hd hqd)
    · obtain ⟨b, hb, hq⟩ := hb
      by_cases hlt : i < l.length
      · rw [getElem?_append_left hlt] at hi
        refine h.all i a hi ?_
        rcases mem_append.mp hb with hb | hb
        · exact ⟨b, hb, hq⟩
        · obtain ⟨c, hc, hqc, -⟩ := hinner a (mem_of_getElem? hi) b hb hq
          exact ⟨c, hc, hqc⟩
      · rw [getElem?_append_right (not_lt.mp hlt)] at hi
        exact absurd hq (houter a (mem_of_getElem? hi) b hb)

def TimeSort.byTime (r : TimedRows) : TimeSort r where
  sort g := g.mergeSort fun i j => timeAt r i ≤ timeAt r j
  perm g := mergeSort_perm g _
  ascending g := by
    have := @pairwise_mergeSort _ (fun i j => decide (timeAt r i ≤ timeAt r j))
      (by simp; omega) (by simp; omega) g
    simpa using this

end Zepto.Execution
