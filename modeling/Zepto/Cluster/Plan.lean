import Mathlib.Data.List.Induction
import Zepto.Cluster.Ring

/-!
# Migration plans

`planAdd` and `planRemove` go through the virtual nodes of the node that comes or leaves, and name
for each pair of nodes one symbol, the low half of the hash of the first virtual node that changes
hands between the two. `plan_complete_iff` says when these moves copy every symbol that gets
another owner: only if each of them is the one its pair of nodes has a move for.
-/

namespace Zepto.Cluster

open List Zepto.Lib Router

structure Move where
  symbol : SymbolId
  source : NodeId
  target : NodeId
  deriving DecidableEq

def Move.nodes (m : Move) : NodeId × NodeId := (m.source, m.target)

/-- `deduplicate_moves`: the first move of each pair of nodes. -/
def deduplicateMoves (moves : List Move) : List Move :=
  (moves.foldl (fun (acc : Finset (NodeId × NodeId) × List Move) m =>
    if m.nodes ∈ acc.1 then acc else (insert m.nodes acc.1, acc.2 ++ [m])) (∅, [])).2

/-- The symbol that stands for a virtual node. -/
def representative (node : NodeId) (idx : Nat) : SymbolId := (vnodeHash node idx).setWidth 32

namespace Router

def planAdd (r : Router) (newNode : NodeId) : List Move :=
  if newNode ∈ r.nodeSet then []
  else if hne : r.ring.entries = [] then []
  else
    deduplicateMoves ((range vnodesPerNode).filterMap fun i =>
      let oldOwner := findNode r.ring hne (vnodeHash newNode i)
      if oldOwner ≠ newNode then some ⟨representative newNode i, oldOwner, newNode⟩ else none)

def planRemove (r : Router) (leaving : NodeId) : List Move :=
  if leaving ∉ r.nodeSet then []
  else if r.nodeSet.card ≤ 1 then []
  else
    let temp := r.removeNode leaving
    if hne : temp.ring.entries = [] then []
    else
      deduplicateMoves ((range vnodesPerNode).map fun i =>
        ⟨representative leaving i, leaving, findNode temp.ring hne (vnodeHash leaving i)⟩)

/-- A move that is committed: dual writes, the copy, then the pin. -/
def executeMove (r : Router) (m : Move) : Router :=
  (r.beginMigration m.symbol m.source m.target).commitMigration m.symbol m.target

def executeMoves (r : Router) (moves : List Move) : Router := moves.foldl executeMove r

end Router

/-- The first index with its pair of nodes. -/
def IsFirst (f : Nat → Move) (i : Nat) : Prop := ∀ j < i, (f j).nodes ≠ (f i).nodes

instance (f : Nat → Move) : DecidablePred (IsFirst f) := fun i =>
  inferInstanceAs (Decidable (∀ j < i, (f j).nodes ≠ (f i).nodes))

theorem deduplicateMoves_range (f : Nat → Move) (n : Nat) :
    deduplicateMoves ((range n).map f) = ((range n).filter (IsFirst f)).map f := by
  -- The set holds the pairs seen so far.
  have hfold : ((range n).map f).foldl (fun (acc : Finset (NodeId × NodeId) × List Move) m =>
        if m.nodes ∈ acc.1 then acc else (insert m.nodes acc.1, acc.2 ++ [m])) (∅, []) =
      ((Finset.range n).image fun i => (f i).nodes, ((range n).filter (IsFirst f)).map f) := by
    induction n with
    | zero => rfl
    | succ n ih =>
      rw [range_succ, map_append, foldl_append, ih, Finset.range_add_one]
      simp only [map_cons, map_nil, foldl_cons, Finset.mem_image, Finset.mem_range, foldl_nil,
        Finset.image_insert, filter_append, map_append]
      by_cases h : ∃ j < n, (f j).nodes = (f n).nodes
      · obtain ⟨j, hj, hjn⟩ := h
        have hnot : ¬IsFirst f n := fun hfirst => hfirst j hj hjn
        rw [if_pos ⟨j, hj, hjn⟩, Finset.insert_eq_of_mem
          (Finset.mem_image.mpr ⟨j, mem_range.mpr hj, hjn⟩)]
        simp [hnot]
      · have hfirst : IsFirst f n := fun j hj hjn => h ⟨j, hj, hjn⟩
        rw [if_neg h]
        simp [hfirst]
  rw [deduplicateMoves, hfold]

/-! ## What the plans name -/

def holder (ring : Ring) (h : BitVec 64) : Option NodeId := (ring.next h.toNat).map Prod.snd

/-- The first virtual node of `n` at a position that `x` holds. -/
def firstHeld (ring : Ring) (n x : NodeId) : Option Nat :=
  (range vnodesPerNode).find? fun i => holder ring (vnodeHash n i) = some x

section

variable {ring : Ring} {n x : NodeId} {i : Nat} {h : BitVec 64}

theorem holder_eq (hne : ring.entries ≠ []) (h : BitVec 64) :
    holder ring h = some (findNode ring hne h) := by
  obtain ⟨e, he⟩ := SortedMap.next_isSome hne h.toNat
  rw [holder, he, findNode_eq hne he]
  rfl

theorem holder_of_empty (hempty : ring.entries = []) : holder ring h = none := by
  simp [holder, SortedMap.next, SortedMap.lowerBound, hempty]

theorem firstHeld_eq_some : firstHeld ring n x = some i ↔ i < vnodesPerNode ∧
    holder ring (vnodeHash n i) = some x ∧ ∀ j < i, holder ring (vnodeHash n j) ≠ some x := by
  rw [firstHeld, find?_range_eq_some]
  simp only [decide_eq_true_eq, mem_range, Bool.not_eq_true', decide_eq_false_iff_not]
  constructor
  · rintro ⟨hx, hi, hj⟩
    exact ⟨hi, hx, hj⟩
  · rintro ⟨hi, hx, hj⟩
    exact ⟨hx, hi, hj⟩

theorem mem_firsts {f : Nat → Move} (hf : ∀ j i, (f j).nodes = (f i).nodes ↔
      holder ring (vnodeHash n j) = holder ring (vnodeHash n i))
    (hne : ring.entries ≠ []) :
    i ∈ (range vnodesPerNode).filter (IsFirst f) ↔
      ∃ x, holder ring (vnodeHash n i) = some x ∧ firstHeld ring n x = some i := by
  rw [mem_filter, mem_range, decide_eq_true_eq]
  constructor
  · rintro ⟨hi, hfirst⟩
    refine ⟨_, holder_eq hne _, firstHeld_eq_some.mpr ⟨hi, holder_eq hne _, fun j hj hx => ?_⟩⟩
    exact hfirst j hj ((hf j i).mpr (hx.trans (holder_eq hne _).symm))
  · rintro ⟨x, hx, hfirst⟩
    obtain ⟨hi, -, hj⟩ := firstHeld_eq_some.mp hfirst
    exact ⟨hi, fun j hji hnodes => hj j hji (((hf j i).mp hnodes).trans hx)⟩

end

namespace Router

variable {r : Router} {n x : NodeId} {s : SymbolId}

theorem RingOk.holder_mem (hr : r.RingOk) {h : BitVec 64} (hx : holder r.ring h = some x) :
    x ∈ r.nodeSet := by
  obtain ⟨e, he, rfl⟩ := Option.map_eq_some_iff.mp hx
  exact ((hr e).mp (SortedMap.isNext_of_next he).1).1

theorem owner_of_holder (hpin : r.pinned.lookup s = none)
    (hx : holder r.ring (symbolHash s) = some x) : r.owner s = .ok x := by
  obtain ⟨e, he, rfl⟩ := Option.map_eq_some_iff.mp hx
  exact owner_of_next hpin he

theorem holder_of_owner (hpin : r.pinned.lookup s = none) (hx : r.owner s = .ok x) :
    holder r.ring (symbolHash s) = some x := by
  by_cases hempty : r.ring.entries = []
  · rw [owner_of_empty hpin hempty] at hx
    cases hx
  have hown := owner_of_holder hpin (holder_eq hempty (symbolHash s))
  rw [hx] at hown
  cases hown
  exact holder_eq hempty _

/-- The move of `plan_add` for one virtual node. -/
def addMove (r : Router) (hne : r.ring.entries ≠ []) (n : NodeId) (i : Nat) : Move :=
  ⟨representative n i, findNode r.ring hne (vnodeHash n i), n⟩

theorem mem_planAdd (hr : r.RingOk) (hn : n ∉ r.nodeSet) {m : Move} : m ∈ r.planAdd n ↔
      ∃ x i, firstHeld r.ring n x = some i ∧ m = ⟨representative n i, x, n⟩ := by
  rw [planAdd]
  split_ifs with hempty
  · simp [firstHeld, holder_of_empty hempty]
  have hold (i : Nat) : findNode r.ring hempty (vnodeHash n i) ≠ n := by
    intro h
    exact hn (hr.holder_mem (h ▸ holder_eq hempty (vnodeHash n i)))
  have hmoves : ((range vnodesPerNode).filterMap fun i =>
      let oldOwner := findNode r.ring hempty (vnodeHash n i)
      if oldOwner ≠ n then some (⟨representative n i, oldOwner, n⟩ : Move) else none) =
      (range vnodesPerNode).map (r.addMove hempty n) := by
    rw [← filterMap_eq_map]
    congr 1
    funext i
    exact if_pos (hold i)
  have hnodes (j i : Nat) : (r.addMove hempty n j).nodes = (r.addMove hempty n i).nodes ↔
      holder r.ring (vnodeHash n j) = holder r.ring (vnodeHash n i) := by
    rw [holder_eq hempty, holder_eq hempty]
    simp [addMove, Move.nodes]
  rw [hmoves, deduplicateMoves_range, mem_map]
  constructor
  · rintro ⟨i, hi, rfl⟩
    obtain ⟨x, hx, hfirst⟩ := (mem_firsts hnodes hempty).mp hi
    rw [holder_eq hempty, Option.some.injEq] at hx
    exact ⟨x, i, hfirst, by rw [addMove, hx]⟩
  rintro ⟨x, i, hfirst, rfl⟩
  have hx := (firstHeld_eq_some.mp hfirst).2.1
  refine ⟨i, (mem_firsts hnodes hempty).mpr ⟨x, hx, hfirst⟩, ?_⟩
  rw [holder_eq hempty, Option.some.injEq] at hx
  rw [addMove, hx]

/-! ## The pins that a plan leaves -/

theorem executeMove_pinned (r : Router) (m : Move) :
    (r.executeMove m).pinned = r.pinned.insert m.symbol m.target := rfl

theorem executeMoves_ring (r : Router) (moves : List Move) :
    (r.executeMoves moves).ring = r.ring ∧ (r.executeMoves moves).nodeSet = r.nodeSet := by
  induction moves generalizing r with
  | nil => exact ⟨rfl, rfl⟩
  | cons m moves ih => exact ih (r.executeMove m)

/-- A symbol that no move names keeps its pin. -/
theorem executeMoves_pinned_of_not_mem {moves : List Move} (h : ∀ m ∈ moves, m.symbol ≠ s) :
    (r.executeMoves moves).pinned.lookup s = r.pinned.lookup s := by
  induction moves generalizing r with
  | nil => rfl
  | cons m moves ih =>
    rw [forall_mem_cons] at h
    have hstep := ih (r := r.executeMove m) h.2
    rw [executeMove_pinned, AList.lookup_insert_ne (fun hs => h.1 hs.symm)] at hstep
    exact hstep

/-- The last move that names a symbol pins it. -/
theorem executeMoves_pinned_last (before : List Move) {after : List Move} {m : Move}
    (h : ∀ m' ∈ after, m'.symbol ≠ m.symbol) :
    (r.executeMoves (before ++ m :: after)).pinned.lookup m.symbol = some m.target := by
  rw [executeMoves, foldl_append]
  have hlast := executeMoves_pinned_of_not_mem (r := (before.foldl executeMove r).executeMove m) h
  rw [executeMove_pinned, AList.lookup_insert] at hlast
  exact hlast

end Router

theorem exists_last {moves : List Move} {s : SymbolId} (h : ∃ m ∈ moves, m.symbol = s) :
    ∃ before m after, moves = before ++ m :: after ∧ m.symbol = s ∧
      ∀ m' ∈ after, m'.symbol ≠ s := by
  induction moves with
  | nil => simp at h
  | cons m moves ih =>
    by_cases hlater : ∃ m' ∈ moves, m'.symbol = s
    · obtain ⟨before, m', after, rfl, hs, hafter⟩ := ih hlater
      exact ⟨m :: before, m', after, rfl, hs, hafter⟩
    obtain ⟨m', hm', hs⟩ := h
    rcases mem_cons.mp hm' with rfl | hm'
    · exact ⟨[], m', moves, rfl, hs, fun x hx hxs => hlater ⟨x, hx, hxs⟩⟩
    · exact absurd ⟨m', hm', hs⟩ hlater

namespace Router

variable {r : Router} {n x : NodeId} {s : SymbolId}

/-! ## Adding a node -/

/-- The router after executing `plan_add` and adding the node. -/
def afterAdd (r : Router) (n : NodeId) : Router := (r.executeMoves (r.planAdd n)).addNode n

/-- Every symbol that gets another owner has a move that copies it there. -/
def AddComplete (r : Router) (n : NodeId) : Prop :=
  ∀ s a b, (r.route s).1 = .ok a → ((r.afterAdd n).route s).1 = .ok b → a ≠ b →
    ⟨s, a, b⟩ ∈ r.planAdd n

/-- Every free symbol in a segment of the new node is the one its holder has a move for, and moved
symbols belong to the node they are copied from. -/
structure AddCovered (r : Router) (n : NodeId) : Prop where
  segments : ∀ s a, r.pinned.lookup s = none → holder r.ring (symbolHash s) = some a →
    holder (r.addNode n).ring (symbolHash s) = some n →
      ∃ i, firstHeld r.ring n a = some i ∧ representative n i = s
  sources : ∀ x i a, firstHeld r.ring n x = some i → r.owner (representative n i) = .ok a →
    a ≠ n → ∃ j, firstHeld r.ring n a = some j ∧ representative n j = representative n i

theorem afterAdd_ring (hr : r.RingOk) (n : NodeId) : (r.afterAdd n).ring = (r.addNode n).ring := by
  obtain ⟨hring, hset⟩ := r.executeMoves_ring (r.planAdd n)
  refine (hr.addNode n).ring_eq ((hr.of_eq hring hset).addNode n) ?_
  rw [afterAdd, addNode_nodeSet, addNode_nodeSet, hset]

theorem afterAdd_owner_of_named (hr : r.RingOk) (hn : n ∉ r.nodeSet)
    (h : ∃ m ∈ r.planAdd n, m.symbol = s) : (r.afterAdd n).owner s = .ok n := by
  obtain ⟨before, m, after, hplan, rfl, hafter⟩ := exists_last h
  have hmem : m ∈ r.planAdd n := by rw [hplan]; simp
  obtain ⟨x, i, -, rfl⟩ := (mem_planAdd hr hn).mp hmem
  apply owner_of_pin
  rw [afterAdd, addNode_pinned, hplan]
  exact executeMoves_pinned_last before hafter

theorem afterAdd_pinned (h : ¬∃ m ∈ r.planAdd n, m.symbol = s) :
    (r.afterAdd n).pinned.lookup s = r.pinned.lookup s := by
  rw [afterAdd, addNode_pinned]
  exact executeMoves_pinned_of_not_mem fun m hm hs => h ⟨m, hm, hs⟩

theorem unpinned_of_moved {r' : Router} (hpin : r'.pinned.lookup s = r.pinned.lookup s)
    {a b : NodeId} (ha : r.owner s = .ok a) (hb : r'.owner s = .ok b) (hne : a ≠ b) :
    r.pinned.lookup s = none ∧ holder r'.ring (symbolHash s) = some b := by
  cases hold : r.pinned.lookup s with
  | some y =>
    rw [owner_of_pin hold] at ha
    rw [owner_of_pin (hpin.trans hold)] at hb
    exact absurd (Except.ok.inj (ha.symm.trans hb)) hne
  | none => exact ⟨rfl, holder_of_owner (hpin.trans hold) hb⟩

theorem addComplete_iff (hr : r.RingOk) (hn : n ∉ r.nodeSet) :
    (∀ s a b, r.owner s = .ok a → (r.afterAdd n).owner s = .ok b → a ≠ b →
      ⟨s, a, b⟩ ∈ r.planAdd n) ↔ r.AddCovered n := by
  have hmove {s : SymbolId} {a : NodeId} : (⟨s, a, n⟩ : Move) ∈ r.planAdd n ↔
      ∃ i, firstHeld r.ring n a = some i ∧ representative n i = s := by
    rw [mem_planAdd hr hn]
    constructor
    · rintro ⟨x, i, hfirst, hm⟩
      cases hm
      exact ⟨i, hfirst, rfl⟩
    · rintro ⟨i, hfirst, rfl⟩
      exact ⟨a, i, hfirst, rfl⟩
  constructor
  · intro hall
    refine ⟨fun s a hpin ha hnew => ?_, fun x i a hfirst ha hne => ?_⟩
    · -- The symbol goes to the new node, with or without a move.
      have hafter : (r.afterAdd n).owner s = .ok n := by
        by_cases hnamed : ∃ m ∈ r.planAdd n, m.symbol = s
        · exact afterAdd_owner_of_named hr hn hnamed
        · apply owner_of_holder
          · rw [afterAdd_pinned hnamed, hpin]
          · rw [afterAdd_ring hr, hnew]
      have hne : a ≠ n := fun h => hn (h ▸ hr.holder_mem ha)
      exact hmove.mp (hall s a n (owner_of_holder hpin ha) hafter hne)
    · have hnamed : ∃ m ∈ r.planAdd n, m.symbol = representative n i :=
        ⟨_, (mem_planAdd hr hn).mpr ⟨x, i, hfirst, rfl⟩, rfl⟩
      exact hmove.mp (hall _ a n ha (afterAdd_owner_of_named hr hn hnamed) hne)
  · rintro ⟨hsegments, hsources⟩ s a b ha hb hne
    by_cases hnamed : ∃ m ∈ r.planAdd n, m.symbol = s
    · rw [afterAdd_owner_of_named hr hn hnamed] at hb
      cases hb
      obtain ⟨m, hm, rfl⟩ := hnamed
      obtain ⟨x, i, hfirst, rfl⟩ := (mem_planAdd hr hn).mp hm
      exact hmove.mpr (hsources x i a hfirst ha hne)
    · obtain ⟨hold, hb'⟩ := unpinned_of_moved (afterAdd_pinned hnamed) ha hb hne
      rw [afterAdd_ring hr] at hb'
      have hnew : (r.addNode n).owner s = .ok b :=
        owner_of_holder (by rw [addNode_pinned, hold]) hb'
      rcases owner_addNode hr n s with hsame | hn'
      · rw [hnew, ha] at hsame
        exact absurd (Except.ok.inj hsame).symm hne
      · rw [hnew] at hn'
        cases hn'
        exact hmove.mpr (hsegments s a hold (holder_of_owner hold ha) hb')

/-! ## Removing a node -/

/-- The router after executing `plan_remove` and removing the node. -/
def afterRemove (r : Router) (n : NodeId) : Router := (r.executeMoves (r.planRemove n)).removeNode n

def RemoveComplete (r : Router) (n : NodeId) : Prop :=
  ∀ s a b, (r.route s).1 = .ok a → ((r.afterRemove n).route s).1 = .ok b → a ≠ b →
    ⟨s, a, b⟩ ∈ r.planRemove n

/-- Every free symbol of the leaving node is one that a new holder has a move for; a moved symbol
belongs to the leaving node or, by its last move, is already at the target. -/
structure RemoveCovered (r : Router) (n : NodeId) : Prop where
  segments : ∀ s, r.pinned.lookup s = none → holder r.ring (symbolHash s) = some n →
    ∃ x i, firstHeld (r.removeNode n).ring n x = some i ∧ representative n i = s
  sources : ∀ x i a, firstHeld (r.removeNode n).ring n x = some i →
    (∀ y j, firstHeld (r.removeNode n).ring n y = some j →
      representative n j = representative n i → j ≤ i) →
    r.owner (representative n i) = .ok a → a = n ∨ a = x

/-- The move of `plan_remove` for one virtual node. -/
def removeMove (r : Router) (n : NodeId) (hne : (r.removeNode n).ring.entries ≠ []) (i : Nat) :
    Move :=
  ⟨representative n i, n, findNode (r.removeNode n).ring hne (vnodeHash n i)⟩

theorem removeNode_ring_ne_nil (hr : r.RingOk) (hcard : 1 < r.nodeSet.card) :
    (r.removeNode n).ring.entries ≠ [] := by
  obtain ⟨m, hm, hne⟩ := Finset.exists_mem_ne hcard n
  refine (hr.removeNode n).entries_ne_nil (n := m) ?_
  rw [removeNode_nodeSet]
  exact Finset.mem_erase.mpr ⟨hne, hm⟩

theorem planRemove_eq (hn : n ∈ r.nodeSet) (hcard : 1 < r.nodeSet.card)
    (hne : (r.removeNode n).ring.entries ≠ []) :
    r.planRemove n = ((range vnodesPerNode).filter (IsFirst (r.removeMove n hne))).map
      (r.removeMove n hne) := by
  rw [planRemove, if_neg (not_not.mpr hn), if_neg (by omega)]
  simp only [dif_neg hne]
  exact deduplicateMoves_range (r.removeMove n hne) vnodesPerNode

theorem removeMove_nodes (hne : (r.removeNode n).ring.entries ≠ []) (j i : Nat) :
    (r.removeMove n hne j).nodes = (r.removeMove n hne i).nodes ↔
      holder (r.removeNode n).ring (vnodeHash n j) =
        holder (r.removeNode n).ring (vnodeHash n i) := by
  rw [holder_eq hne, holder_eq hne]
  simp [removeMove, Move.nodes]

theorem removeMove_eq (hne : (r.removeNode n).ring.entries ≠ []) {i : Nat}
    (hx : holder (r.removeNode n).ring (vnodeHash n i) = some x) :
    r.removeMove n hne i = ⟨representative n i, n, x⟩ := by
  rw [holder_eq hne, Option.some.injEq] at hx
  rw [removeMove, hx]

section

variable (hr : r.RingOk) (hn : n ∈ r.nodeSet) (hcard : 1 < r.nodeSet.card)

include hr hn hcard

theorem mem_planRemove {m : Move} :
    m ∈ r.planRemove n ↔ ∃ x i, firstHeld (r.removeNode n).ring n x = some i ∧
      m = ⟨representative n i, n, x⟩ := by
  have hne := removeNode_ring_ne_nil (n := n) hr hcard
  rw [planRemove_eq hn hcard hne, mem_map]
  constructor
  · rintro ⟨i, hi, rfl⟩
    obtain ⟨x, hx, hfirst⟩ := (mem_firsts (removeMove_nodes hne) hne).mp hi
    exact ⟨x, i, hfirst, removeMove_eq hne hx⟩
  · rintro ⟨x, i, hfirst, rfl⟩
    have hx := (firstHeld_eq_some.mp hfirst).2.1
    exact ⟨i, (mem_firsts (removeMove_nodes hne) hne).mpr ⟨x, hx, hfirst⟩, removeMove_eq hne hx⟩

/-- A symbol that the plan names ends at the target of its last move. -/
theorem afterRemove_owner_of_named (h : ∃ m ∈ r.planRemove n, m.symbol = s) :
    ∃ x i, firstHeld (r.removeNode n).ring n x = some i ∧ representative n i = s ∧
      (∀ y j, firstHeld (r.removeNode n).ring n y = some j → representative n j = s → j ≤ i) ∧
      (r.afterRemove n).owner s = .ok x := by
  have hne := removeNode_ring_ne_nil (n := n) hr hcard
  have hplan := planRemove_eq hn hcard hne
  obtain ⟨before, m, after, hsplit, rfl, hafter⟩ := exists_last h
  obtain ⟨l1, l2', hl, -, htail⟩ := map_eq_append_iff.mp (hplan.symm.trans hsplit)
  obtain ⟨i, l2, rfl, rfl, rfl⟩ := map_eq_cons_iff.mp htail
  have hsorted : (l1 ++ i :: l2).Pairwise (· < ·) := hl ▸ .filter _ pairwise_lt_range
  have hmem (j : Nat) : j ∈ l1 ++ i :: l2 ↔ ∃ y,
      holder (r.removeNode n).ring (vnodeHash n j) = some y ∧
        firstHeld (r.removeNode n).ring n y = some j := by
    rw [← hl]
    exact mem_firsts (removeMove_nodes hne) hne
  obtain ⟨x, hx, hfirst⟩ := (hmem i).mp (by simp)
  refine ⟨x, i, hfirst, rfl, fun y j hj hrep => ?_, ?_⟩
  · have hjmem := (hmem j).mpr ⟨y, (firstHeld_eq_some.mp hj).2.1, hj⟩
    rcases mem_append.mp hjmem with hbefore | hrest
    · exact le_of_lt ((pairwise_append.mp hsorted).2.2 j hbefore i mem_cons_self)
    · rcases mem_cons.mp hrest with rfl | hlater
      · exact le_refl _
      · exact absurd hrep (hafter _ (mem_map_of_mem hlater))
  · apply owner_of_pin
    rw [afterRemove, removeNode_pinned, hsplit]
    have hlast := executeMoves_pinned_last (r := r) before hafter
    rwa [removeMove_eq hne hx] at hlast ⊢

end

theorem afterRemove_ring (hr : r.RingOk) (n : NodeId) :
    (r.afterRemove n).ring = (r.removeNode n).ring := by
  obtain ⟨hring, hset⟩ := r.executeMoves_ring (r.planRemove n)
  refine (hr.removeNode n).ring_eq ((hr.of_eq hring hset).removeNode n) ?_
  rw [afterRemove, removeNode_nodeSet, removeNode_nodeSet, hset]

theorem afterRemove_pinned (h : ¬∃ m ∈ r.planRemove n, m.symbol = s) :
    (r.afterRemove n).pinned.lookup s = r.pinned.lookup s := by
  rw [afterRemove, removeNode_pinned]
  exact executeMoves_pinned_of_not_mem fun m hm hs => h ⟨m, hm, hs⟩

/-- A symbol without a move changes its owner only from the leaving node. -/
theorem afterRemove_owner_of_not_named (hr : r.RingOk)
    (hnamed : ¬∃ m ∈ r.planRemove n, m.symbol = s) {a b : NodeId} (ha : r.owner s = .ok a)
    (hb : (r.afterRemove n).owner s = .ok b) (hne : a ≠ b) :
    r.pinned.lookup s = none ∧ holder r.ring (symbolHash s) = some n ∧ a = n ∧
      holder (r.removeNode n).ring (symbolHash s) = some b := by
  obtain ⟨hold, hb'⟩ := unpinned_of_moved (afterRemove_pinned hnamed) ha hb hne
  rw [afterRemove_ring hr] at hb'
  have hnew : (r.removeNode n).owner s = .ok b :=
    owner_of_holder (by rw [removeNode_pinned, hold]) hb'
  rcases owner_removeNode hr n s with hsame | hn'
  · rw [hnew, ha] at hsame
    exact absurd (Except.ok.inj hsame).symm hne
  · exact ⟨hold, holder_of_owner hold hn', Except.ok.inj (ha.symm.trans hn'), hb'⟩

theorem removeComplete_iff (hr : r.RingOk) (hn : n ∈ r.nodeSet) (hcard : 1 < r.nodeSet.card) :
    (∀ s a b, r.owner s = .ok a → (r.afterRemove n).owner s = .ok b → a ≠ b →
      ⟨s, a, b⟩ ∈ r.planRemove n) ↔ r.RemoveCovered n := by
  have hleft : n ∉ (r.removeNode n).nodeSet := by
    rw [removeNode_nodeSet]
    exact Finset.notMem_erase n _
  constructor
  · intro hall
    refine ⟨fun s hpin hold => ?_, fun x i a hfirst hlast ha => ?_⟩
    · by_cases hnamed : ∃ m ∈ r.planRemove n, m.symbol = s
      · obtain ⟨m, hm, rfl⟩ := hnamed
        obtain ⟨x, i, hfirst, rfl⟩ := (mem_planRemove hr hn hcard).mp hm
        exact ⟨x, i, hfirst, rfl⟩
      · obtain ⟨b, hnew⟩ : ∃ b, holder (r.removeNode n).ring (symbolHash s) = some b :=
          ⟨_, holder_eq (removeNode_ring_ne_nil (n := n) hr hcard) (symbolHash s)⟩
        have hne : n ≠ b := fun h => hleft (h ▸ (hr.removeNode n).holder_mem hnew)
        have hafter : (r.afterRemove n).owner s = .ok b :=
          owner_of_holder ((afterRemove_pinned hnamed).trans hpin)
            (by rw [afterRemove_ring hr, hnew])
        exact absurd ⟨_, hall s n b (owner_of_holder hpin hold) hafter hne, rfl⟩ hnamed
    · have hnamed : ∃ m ∈ r.planRemove n, m.symbol = representative n i :=
        ⟨_, (mem_planRemove hr hn hcard).mpr ⟨x, i, hfirst, rfl⟩, rfl⟩
      obtain ⟨y, j, hj, hrep, hmax, hafter⟩ := afterRemove_owner_of_named hr hn hcard hnamed
      -- There is one last move for the symbol.
      obtain rfl : i = j := le_antisymm (hmax x i hfirst rfl) (hlast y j hj hrep)
      obtain rfl : x = y := by
        have hx := (firstHeld_eq_some.mp hfirst).2.1
        rw [(firstHeld_eq_some.mp hj).2.1, Option.some.injEq] at hx
        exact hx.symm
      by_cases hax : a = x
      · exact .inr hax
      · obtain ⟨_, _, _, hm⟩ := (mem_planRemove hr hn hcard).mp (hall _ a x ha hafter hax)
        exact .inl (congrArg Move.source hm)
  · rintro ⟨hsegments, hsources⟩ s a b ha hb hne
    by_cases hnamed : ∃ m ∈ r.planRemove n, m.symbol = s
    · obtain ⟨x, i, hfirst, rfl, hmax, hafter⟩ := afterRemove_owner_of_named hr hn hcard hnamed
      obtain rfl : x = b := Except.ok.inj (hafter.symm.trans hb)
      rw [(hsources x i a hfirst hmax ha).resolve_right hne]
      exact (mem_planRemove hr hn hcard).mpr ⟨x, i, hfirst, rfl⟩
    · obtain ⟨hpin, hold, rfl, -⟩ := afterRemove_owner_of_not_named hr hnamed ha hb hne
      obtain ⟨x, i, hfirst, rfl⟩ := hsegments s hpin hold
      exact absurd ⟨_, (mem_planRemove hr hn hcard).mpr ⟨x, i, hfirst, rfl⟩, rfl⟩ hnamed

end Router

/-! ## When plans are complete -/

theorem Reachable.executeMoves {r : Router} (h : Reachable r) (moves : List Move) :
    Reachable (r.executeMoves moves) := by
  induction moves generalizing r with
  | nil => exact h
  | cons m moves ih =>
    exact ih ((h.call (.beginMigration m.symbol m.source m.target) nofun).call
      (.commitMigration m.symbol m.target) nofun)

/-- A plan is complete exactly if there is nothing to plan, or the symbols of its segments are the
ones it names and have the owners it copies from. -/
theorem plan_complete_iff {r : Router} (hr : Reachable r) (n : NodeId) :
    (r.AddComplete n ↔ n ∈ r.nodeSet ∨ r.AddCovered n) ∧
    (r.RemoveComplete n ↔ n ∉ r.nodeSet ∨ r.nodeSet.card ≤ 1 ∨ r.RemoveCovered n) := by
  have hadd : Reachable (r.afterAdd n) := (hr.executeMoves _).addNode n
  have hremove : Reachable (r.afterRemove n) := (hr.executeMoves _).removeNode n
  simp only [AddComplete, RemoveComplete, hr.route_eq, hadd.route_eq, hremove.route_eq]
  constructor
  · by_cases hn : n ∈ r.nodeSet
    · simp only [hn, true_or, iff_true]
      intro s a b ha hb hne
      have hsame : r.afterAdd n = r := by
        rw [afterAdd, planAdd, if_pos hn]
        exact if_pos hn
      rw [hsame, ha] at hb
      exact absurd (Except.ok.inj hb) hne
    · rw [addComplete_iff hr.ringOk hn]
      simp [hn]
  · by_cases hn : n ∈ r.nodeSet
    · by_cases hcard : r.nodeSet.card ≤ 1
      · simp only [hcard, true_or, or_true, iff_true]
        intro s a b ha hb hne
        have hplan : r.planRemove n = [] := by
          rw [planRemove, if_neg (not_not.mpr hn), if_pos hcard]
        -- The last node leaves: nothing is planned, and no symbol gets another owner.
        obtain ⟨-, -, -, hb'⟩ := afterRemove_owner_of_not_named hr.ringOk (by simp [hplan])
          ha hb hne
        have hempty : (r.removeNode n).nodeSet = ∅ := by
          rw [removeNode_nodeSet, ← Finset.card_eq_zero, Finset.card_erase_of_mem hn]
          omega
        have hmem := (hr.ringOk.removeNode n).holder_mem hb'
        simp [hempty] at hmem
      · rw [removeComplete_iff hr.ringOk hn (by omega)]
        simp [hn, hcard]
    · simp only [hn, not_false_eq_true, true_or, iff_true]
      intro s a b ha hb hne
      have hsame : r.afterRemove n = r := by
        rw [afterRemove, planRemove, if_pos hn]
        exact if_neg hn
      rw [hsame, ha] at hb
      exact absurd (Except.ok.inj hb) hne

/-- Node 2 takes symbol 2 from node 1, and the only move is for another symbol. -/
theorem second_node_unplanned : ¬(Router.new.addNode 1).AddComplete 2 := by
  intro h
  have hok {x : Except RouterError NodeId} {a : NodeId} (hx : x.toOption = some a) : x = .ok a := by
    cases x <;> simp_all [Except.toOption]
  have hbefore : ((new.addNode 1).route 2).1.toOption = some 1 := by decide +kernel
  have hafter : (((new.addNode 1).afterAdd 2).route 2).1.toOption = some 2 := by
    decide +kernel
  have hmem : (⟨2, 1, 2⟩ : Move) ∉ (new.addNode 1).planAdd 2 := by decide +kernel
  exact hmem (h 2 1 2 (hok hbefore) (hok hafter) (by decide))

theorem second_node_not_covered : ¬(Router.new.addNode 1).AddCovered 2 := fun h =>
  second_node_unplanned ((plan_complete_iff (Reachable.new.addNode 1) 2).1.mpr (.inr h))

theorem planAdd_misses_symbol : ¬(Router.new.addNode 1).AddComplete 2 := second_node_unplanned

end Zepto.Cluster
