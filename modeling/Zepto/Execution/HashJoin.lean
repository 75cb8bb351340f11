import Mathlib.Data.List.Nodup
import Mathlib.Data.Option.Basic
import Mathlib.Data.Prod.Basic
import Zepto.Lib.Grouping
import Zepto.Lib.ProbeTable

/-!
# Hash joins

`HashJoinOperator::execute` looks keys up in a `FlatHashMap`, a table with open addressing, the
matching of `exec_hash_join` in a `std::unordered_map`, and both choose a side to build the map of.
Every way gives the pairs of rows with equal keys and one padded pair for each row without a match
on a side that the join preserves (`hashJoins_agree`).
-/

namespace Zepto.Execution

open List Zepto.Lib

/-! ## The map -/

/-- `FlatHashMap` with lists of rows for values. -/
abbrev FlatHashMap := List (Option (Int × List Nat))

/-- `while (cap < target) cap <<= 1`; `target` rounds are enough. -/
def grow (target : Nat) : Nat → Nat → Nat
  | 0, cap => cap
  | rounds + 1, cap => if cap < target then grow target rounds (2 * cap) else cap

namespace FlatHashMap

/-- The constructor. The capacity is a power of two: masking takes the remainder. -/
def new (expected : Nat) : FlatHashMap :=
  let target := expected * 4 / 3 + 1
  replicate (grow target target 16) none

variable (hash : Int → Nat)

/-- `map[key].push_back(row)`; none if the search for the key does not end. -/
def push (t : FlatHashMap) (key : Int) (row : Nat) : Option FlatHashMap :=
  (slotOf hash t key).map fun s =>
    t.set s (some (key, ((entryAt t s).map Prod.snd).getD [] ++ [row]))

/-- `find`; none if the search does not end. -/
def find (t : FlatHashMap) (key : Int) : Option (Option (List Nat)) :=
  (slotOf hash t key).map fun s => (entryAt t s).map Prod.snd

def ofKeys (keys : List Int) : Option FlatHashMap :=
  keys.zipIdx.foldlM (fun t e => t.push hash e.1 e.2) (new keys.length)

end FlatHashMap

def rowList : Accumulator (List Nat) Nat where
  init := []
  step s row := s ++ [row]

/-- The rows of a key, unless there are none. -/
def bucketOf (keys : List Int) (key : Int) : Option (List Nat) :=
  if (valuesOf key keys.zipIdx).isEmpty then none else some (valuesOf key keys.zipIdx)

theorem le_grow {target rounds cap : Nat} (hcap : 0 < cap) (h : target ≤ cap + rounds) :
    target ≤ grow target rounds cap := by
  induction rounds generalizing cap with
  | zero => exact h
  | succ rounds ih =>
    unfold grow
    split
    · exact ih (by omega) (by omega)
    · omega

theorem lookup_rowList (keys : List Int) (key : Int) :
    (groupFold rowList keys.zipIdx).lookup key = bucketOf keys key := by
  have hfold (s xs : List Nat) : xs.foldl rowList.step s = s ++ xs := by
    induction xs generalizing s with
    | nil => simp
    | cons x xs ih => rw [foldl_cons, ih]; simp [rowList]
  rw [lookup_groupFold, advance, hfold]
  rfl

section

variable {hash : Int → Nat}

theorem FlatHashMap.foldlM_push {rows : List (Int × Nat)} {t : FlatHashMap}
    {g : AList fun _ : Int => List Nat} (h : Represents hash t g.lookup)
    (hroom : t.countP Option.isSome + rows.length < t.length) :
    ∃ t', rows.foldlM (fun t e => t.push hash e.1 e.2) t = some t' ∧
      Represents hash t' (rows.foldl (groupStep rowList) g).lookup ∧
      t'.countP Option.isSome < t'.length := by
  induction rows generalizing t g with
  | nil => exact ⟨t, rfl, h, by simpa using hroom⟩
  | cons e rows ih =>
    obtain ⟨key, row⟩ := e
    rw [length_cons] at hroom
    have hempty : t.countP Option.isSome < t.length := by omega
    obtain ⟨s, hs⟩ := exists_slotOf hempty key
    have hset := h.set hs (((entryAt t s).map Prod.snd).getD [] ++ [row])
    rw [h.find hs] at hset
    have hlookup : Function.update g.lookup key (some ((g.lookup key).getD [] ++ [row])) =
        (groupStep rowList g (key, row)).lookup := by
      funext k
      by_cases hk : k = key
      · subst hk
        rw [Function.update_self, groupStep, AList.lookup_insert]
        rfl
      · rw [Function.update_of_ne hk, groupStep, AList.lookup_insert_ne hk]
    have hcount : (t.set s (some (key, (g.lookup key).getD [] ++ [row]))).countP Option.isSome ≤
        t.countP Option.isSome + 1 := by
      rw [countP_set (h := lt_of_slotOf hs)]
      split <;> simp
    rw [foldlM_cons, push, hs, Option.map_some, h.find hs]
    refine ih (hlookup ▸ hset) ?_
    rw [length_set]
    exact lt_of_le_of_lt (Nat.add_le_add_right hcount _) (by omega)

/-- Every lookup in the map of some keys ends, with the rows of the key. -/
theorem FlatHashMap.ofKeys_find (hash : Int → Nat) (keys : List Int) :
    ∃ t, ofKeys hash keys = some t ∧ ∀ key, t.find hash key = some (bucketOf keys key) := by
  have hnew : Represents hash (new keys.length) (∅ : AList fun _ : Int => List Nat).lookup := by
    exact .replicate _
  have hroom : (new keys.length).countP Option.isSome + keys.zipIdx.length <
      (new keys.length).length := by
    have hcap : keys.length * 4 / 3 + 1 ≤ (new keys.length).length := by
      rw [new, length_replicate]
      exact le_grow (by decide) (by omega)
    have hnone : (new keys.length).countP Option.isSome = 0 := by simp [new]
    rw [length_zipIdx]
    omega
  obtain ⟨t, ht, h, hempty⟩ := foldlM_push hnew hroom
  refine ⟨t, ht, fun key => ?_⟩
  obtain ⟨s, hs⟩ := exists_slotOf hempty key
  rw [find, hs, Option.map_some, h.find hs]
  exact congrArg some (lookup_rowList keys key)

end

/-! ## Matching -/

inductive JoinType where
  | inner | left | right | full
  deriving DecidableEq

/-- Indices of a left and a right row; none is `-1` or `SIZE_MAX`. -/
abbrev IndexPair := Option Nat × Option Nat

/-- `matched[row] = true` for some rows. -/
def mark (matched : List Bool) (rows : List Nat) : List Bool :=
  rows.foldl (fun matched row => matched.set row true) matched

/-- One row that is looked up: `find` gives the rows of the other side, `pair` the order left,
right. -/
def probeRow (find : Int → Option (Option (List Nat))) (pair : IndexPair → IndexPair)
    (preserved : Bool) (s : List IndexPair × List Bool) (e : Int × Nat) :
    Option (List IndexPair × List Bool) := do
  match ← find e.1 with
  | none => some (if preserved then s.1 ++ [pair (some e.2, none)] else s.1, s.2)
  | some bucket => some (s.1 ++ bucket.map fun row => pair (some e.2, some row), mark s.2 bucket)

/-- The loop over the rows of one side, with marks for those of the other. -/
def probeLoop (find : Int → Option (Option (List Nat))) (pair : IndexPair → IndexPair)
    (preserved : Bool) (keys : List Int) (matched : List Bool) :
    Option (List IndexPair × List Bool) :=
  keys.zipIdx.foldlM (probeRow find pair preserved) ([], matched)

/-- The loop over the rows that were not marked. -/
def unmatchedRows (pair : IndexPair → IndexPair) (matched : List Bool) : List IndexPair :=
  ((range matched.length).filter fun row => matched[row]? = some false).map fun row =>
    pair (none, some row)

/-- `HashJoinOperator::execute`. -/
def hashJoinExecute (hash : Int → Nat) (type : JoinType) (l r : List Int) :
    Option (List IndexPair) :=
  match type with
  | .right => do
    let map ← FlatHashMap.ofKeys hash l
    let (out, _) ← probeLoop (map.find hash) .swap true r []
    some out
  | .full => do
    let map ← FlatHashMap.ofKeys hash r
    let (out, matched) ← probeLoop (map.find hash) id true l (replicate r.length false)
    some (out ++ unmatchedRows id matched)
  | .inner | .left => do
    let map ← FlatHashMap.ofKeys hash r
    let (out, _) ← probeLoop (map.find hash) id (type = .left) l []
    some out

/-- The matching of `exec_hash_join`; `buildRight` is what the planner says. -/
def execHashJoinMatching (type : JoinType) (buildRight : Bool) (l r : List Int) :
    Option (List IndexPair) :=
  let plannerSwap := type ≠ .left ∧ type ≠ .right ∧ buildRight = false
  let find (keys : List Int) (key : Int) := some ((groupFold rowList keys.zipIdx).lookup key)
  match type with
  | .right => do
    let (out, _) ← probeLoop (find l) .swap true r []
    some out
  | .full => do
    let pair := if plannerSwap then Prod.swap else id
    let probeKeys := if plannerSwap then r else l
    let buildKeys := if plannerSwap then l else r
    let (out, matched) ← probeLoop (find buildKeys) pair true probeKeys
      (replicate buildKeys.length false)
    some (out ++ unmatchedRows pair matched)
  | .inner | .left => do
    let (out, _) ← if plannerSwap then probeLoop (find l) .swap false r []
      else probeLoop (find r) id (type = .left) l []
    some out

def Joins (type : JoinType) (l r : List Int) : IndexPair → Prop
  | (some i, some j) => ∃ key, l[i]? = some key ∧ r[j]? = some key
  | (some i, none) => (type = .left ∨ type = .full) ∧ ∃ key, l[i]? = some key ∧ key ∉ r
  | (none, some j) => (type = .right ∨ type = .full) ∧ ∃ key, r[j]? = some key ∧ key ∉ l
  | (none, none) => False

/-- The list has the pairs of a join, each once. -/
def IsJoin (type : JoinType) (l r : List Int) (ps : List IndexPair) : Prop :=
  ps.Nodup ∧ ∀ p, p ∈ ps ↔ Joins type l r p

def partners (preserved : Bool) (keys : List Int) (key : Int) : List (Option Nat) :=
  match bucketOf keys key with
  | none => if preserved then [none] else []
  | some bucket => bucket.map some

section

variable {keys probe build l r : List Int} {key : Int} {preserved : Bool} {type : JoinType}

theorem mem_rows (keys : List Int) (key : Int) (j : Nat) :
    j ∈ valuesOf key keys.zipIdx ↔ keys[j]? = some key := by
  simp [valuesOf, mem_zipIdx_iff_getElem?]

theorem bucketOf_eq_none : bucketOf keys key = none ↔ key ∉ keys := by
  rw [mem_iff_getElem?]
  simp [bucketOf, eq_nil_iff_forall_not_mem, mem_rows]

theorem mem_bucketOf (j : Nat) : j ∈ (bucketOf keys key).getD [] ↔ keys[j]? = some key := by
  rw [← mem_rows, bucketOf]
  split <;> simp_all

theorem some_mem_partners {j : Nat} :
    some j ∈ partners preserved keys key ↔ keys[j]? = some key := by
  rw [← mem_bucketOf, partners]
  cases bucketOf keys key <;> simp

theorem none_mem_partners : none ∈ partners preserved keys key ↔ preserved ∧ key ∉ keys := by
  rw [← bucketOf_eq_none, partners]
  cases bucketOf keys key <;> simp

theorem nodup_partners : (partners preserved keys key).Nodup := by
  unfold partners bucketOf
  split
  · split <;> simp
  next bucket h =>
    split at h <;> cases h
    exact ((nodup_zipIdx_map_snd keys).sublist (filter_sublist.map _)).map (Option.some_injective _)

def pairsOf (preserved : Bool) (build : List Int) (rows : List (Int × Nat)) : List IndexPair :=
  rows.flatMap fun e => (partners preserved build e.1).map fun row => (some e.2, row)

theorem probeLoop_eq {find : Int → Option (Option (List Nat))}
    (hfind : ∀ key, find key = some (bucketOf build key)) (pair : IndexPair → IndexPair)
    (matched : List Bool) : probeLoop find pair preserved probe matched =
      some ((pairsOf preserved build probe.zipIdx).map pair,
        mark matched (probe.flatMap fun key => (bucketOf build key).getD [])) := by
  have hloop : ∀ (rows : List (Int × Nat)) (out : List IndexPair) (matched : List Bool),
      rows.foldlM (probeRow find pair preserved) (out, matched) =
        some (out ++ (pairsOf preserved build rows).map pair,
          mark matched (rows.flatMap fun e => (bucketOf build e.1).getD [])) := by
    intro rows
    induction rows with
    | nil => simp [mark, pairsOf]
    | cons e rows ih =>
      intro out matched
      rw [foldlM_cons, probeRow, hfind]
      cases hb : bucketOf build e.1 with
      | none =>
        refine (ih _ _).trans ?_
        cases preserved <;> simp [pairsOf, partners, hb]
      | some bucket =>
        refine (ih _ _).trans ?_
        simp [pairsOf, partners, mark, hb]
  rw [probeLoop, hloop, nil_append, ← flatMap_map Prod.fst fun key => (bucketOf build key).getD [],
    zipIdx_map_fst]

theorem nodup_pairsOf : (pairsOf preserved build probe.zipIdx).Nodup := by
  refine nodup_flatMap.mpr ⟨fun e _ => nodup_partners.map fun _ _ h => (Prod.mk.inj h).2, ?_⟩
  refine (pairwise_map.mp (nodup_zipIdx_map_snd probe)).imp fun hne p hp hp' => hne ?_
  obtain ⟨_, -, rfl⟩ := mem_map.mp hp
  obtain ⟨_, -, heq⟩ := mem_map.mp hp'
  exact (Option.some.inj (Prod.mk.inj heq).1).symm

theorem mem_pairsOf {p : IndexPair} : p ∈ pairsOf preserved build probe.zipIdx ↔
    ∃ i key, probe[i]? = some key ∧ p.1 = some i ∧ p.2 ∈ partners preserved build key := by
  simp only [pairsOf, mem_flatMap, mem_zipIdx_iff_getElem?, Prod.exists]
  grind

/-- An inner join, or one that preserves the side of the loop. -/
theorem isJoin_pairsOf : IsJoin (if preserved then .left else .inner) probe build
    (pairsOf preserved build probe.zipIdx) := by
  refine ⟨nodup_pairsOf, fun p => ?_⟩
  rw [mem_pairsOf]
  rcases p with ⟨_ | i, _ | j⟩
  all_goals cases preserved <;> simp [Joins, some_mem_partners, none_mem_partners]

theorem mem_unmatchedRows {n : Nat} {rows : List Nat} (j : Nat) :
    (mark (replicate n false) rows)[j]? = some false ↔ j < n ∧ j ∉ rows := by
  induction rows using reverseRecOn with
  | nil => simp [mark, getElem?_replicate]
  | append_singleton rows row ih =>
    have hmark : mark (replicate n false) (rows ++ [row]) =
        (mark (replicate n false) rows).set row true := by simp [mark]
    grind

def marks (probe build : List Int) : List Bool :=
  mark (replicate build.length false) (probe.flatMap fun key => (bucketOf build key).getD [])

/-- The marks tell the rows of the other side that are not in a pair. -/
theorem isJoin_full : IsJoin .full probe build
    (pairsOf true build probe.zipIdx ++ unmatchedRows id (marks probe build)) := by
  have hmem (j : Nat) :
      (marks probe build)[j]? = some false ↔ ∃ key, build[j]? = some key ∧ key ∉ probe := by
    rw [marks, mem_unmatchedRows]
    simp only [mem_flatMap, mem_bucketOf]
    cases hj : build[j]? with
    | none => simpa using hj
    | some key =>
      grind
  have hrows (p : IndexPair) : p ∈ unmatchedRows id (marks probe build) ↔
      p.1 = none ∧ ∃ j, p.2 = some j ∧ (marks probe build)[j]? = some false := by
    simp only [unmatchedRows]
    grind
  refine ⟨nodup_append'.mpr ⟨nodup_pairsOf, ?_, fun p hp hp' => ?_⟩, fun p => ?_⟩
  · refine (nodup_range.filter _).map fun i j hij => ?_
    simpa using hij
  · obtain ⟨i, key, -, hi, -⟩ := mem_pairsOf.mp hp
    cases hi.symm.trans ((hrows p).mp hp').1
  · rw [mem_append, mem_pairsOf, hrows]
    rcases p with ⟨_ | i, _ | j⟩
    all_goals simp [Joins, some_mem_partners, none_mem_partners, hmem]

theorem IsJoin.swap {ps : List IndexPair} (h : IsJoin type l r ps) :
    IsJoin (match type with | .left => .right | .right => .left | type => type) r l
      (ps.map .swap) := by
  refine ⟨h.1.map Prod.swap_injective, fun p => ?_⟩
  have hmem : p ∈ ps.map .swap ↔ p.swap ∈ ps := by
    rw [mem_map]
    exact ⟨by rintro ⟨q, hq, rfl⟩; simpa using hq, fun hp => ⟨_, hp, Prod.swap_swap p⟩⟩
  rw [hmem, h.2]
  rcases p with ⟨_ | i, _ | j⟩
  all_goals cases type <;> simp [Joins, and_comm]

/-- The operator and the executor, with either build side, give the pairs of the join, each once. -/
theorem hashJoins_agree (hash : Int → Nat) (type : JoinType) (buildRight : Bool) (l r : List Int) :
    ∃ ps qs, hashJoinExecute hash type l r = some ps ∧
      execHashJoinMatching type buildRight l r = some qs ∧ ps.Perm qs ∧ IsJoin type l r ps := by
  suffices h : ∃ ps qs, hashJoinExecute hash type l r = some ps ∧
      execHashJoinMatching type buildRight l r = some qs ∧ IsJoin type l r ps ∧
      IsJoin type l r qs by
    obtain ⟨ps, qs, hps, hqs, hp, hq⟩ := h
    exact ⟨ps, qs, hps, hqs,
      (perm_ext_iff_of_nodup hp.1 hq.1).mpr fun p => (hp.2 p).trans (hq.2 p).symm, hp⟩
  have hfind (keys : List Int) : ∀ key,
      some ((groupFold rowList keys.zipIdx).lookup key) = some (bucketOf keys key) :=
    fun key => congrArg some (lookup_rowList keys key)
  obtain ⟨left, hleft, hfindl⟩ := FlatHashMap.ofKeys_find hash l
  obtain ⟨right, hright, hfindr⟩ := FlatHashMap.ofKeys_find hash r
  have hswap (matched : List Bool) :
      unmatchedRows .swap matched = (unmatchedRows id matched).map .swap := by
    simp [unmatchedRows]
  cases type with
  | right =>
    have hjoin : IsJoin .right l r ((pairsOf true l r.zipIdx).map .swap) := .swap isJoin_pairsOf
    refine ⟨_, _, ?_, ?_, hjoin, hjoin⟩
    · simp [hashJoinExecute, hleft, probeLoop_eq hfindl]
    · simp [execHashJoinMatching, probeLoop_eq (hfind l)]
  | left =>
    have hjoin : IsJoin .left l r (pairsOf true r l.zipIdx) := isJoin_pairsOf
    refine ⟨_, _, ?_, ?_, hjoin, hjoin⟩
    · simp [hashJoinExecute, hright, probeLoop_eq hfindr]
    · simp [execHashJoinMatching, probeLoop_eq (hfind r)]
  | inner =>
    have hjoin : IsJoin .inner l r (pairsOf false r l.zipIdx) := isJoin_pairsOf
    have hps : hashJoinExecute hash .inner l r = some (pairsOf false r l.zipIdx) := by
      simp [hashJoinExecute, hright, probeLoop_eq hfindr]
    cases buildRight with
    | true =>
      refine ⟨_, _, hps, ?_, hjoin, hjoin⟩
      simp [execHashJoinMatching, probeLoop_eq (hfind r)]
    | false =>
      refine ⟨_, (pairsOf false l r.zipIdx).map .swap, hps, ?_, hjoin, ?_⟩
      · simp [execHashJoinMatching, probeLoop_eq (hfind l)]
      · exact .swap isJoin_pairsOf
  | full =>
    have hps : hashJoinExecute hash .full l r =
        some (pairsOf true r l.zipIdx ++ unmatchedRows id (marks l r)) := by
      simp [hashJoinExecute, hright, probeLoop_eq hfindr, marks]
    cases buildRight with
    | true =>
      refine ⟨_, _, hps, ?_, isJoin_full, isJoin_full⟩
      simp [execHashJoinMatching, probeLoop_eq (hfind r), marks]
    | false =>
      refine ⟨_, _, hps, ?_, isJoin_full, .swap isJoin_full⟩
      simp [execHashJoinMatching, probeLoop_eq (hfind l), hswap, marks]

end

end Zepto.Execution
