import Zepto.Cluster.RouteCache
import Zepto.Lib.Mix
import Zepto.Lib.Successor

/-!
# The ring holds the virtual nodes of the members

The hash of a virtual node determines node and index (`vnodeHash_injective`), so adding and removing
a node touches its own virtual nodes only. In every reachable router the ring is the set of virtual
nodes of the members (`RingOk`), whatever their order. So a member that comes or goes moves only the
symbols it gets or had (`route_moves_minimally`).
-/

namespace Zepto.Cluster

open Router Zepto.Lib SortedMap

/-! ## Virtual nodes -/

theorem vnodeHash_injective {a b : NodeId} {i j : Nat} (hi : i < vnodesPerNode)
    (hj : j < vnodesPerNode) (h : vnodeHash a i = vnodeHash b j) : a = b ∧ i = j := by
  have hbound : vnodesPerNode < 2 ^ 32 := by decide
  have h3 := xor_shift_injective (k := 31) (by decide) h
  have h2 := xor_shift_injective (k := 27) (by decide)
    (mul_injective_of_inverse (c := 0x94d049bb133111eb#64) (d := 0x319642b2d24d8ec3#64)
      (by decide) h3)
  have h1 := xor_shift_injective (k := 30) (by decide)
    (mul_injective_of_inverse (c := 0xbf58476d1ce4e5b9#64) (d := 0x96de1b173f119089#64)
      (by decide) h2)
  have h0 := add_left_injective 0x9e3779b97f4a7c15#64 h1
  exact halves_injective (by omega) (by omega) h0

def vnodeKeys (node : NodeId) : List Nat :=
  (List.range vnodesPerNode).map fun i => (vnodeHash node i).toNat

theorem mem_vnodeKeys {node : NodeId} {k : Nat} :
    k ∈ vnodeKeys node ↔ ∃ i < vnodesPerNode, (vnodeHash node i).toNat = k := by
  simp [vnodeKeys]

theorem node_eq_of_key {a b : NodeId} {k : Nat} (ha : k ∈ vnodeKeys a) (hb : k ∈ vnodeKeys b) :
    a = b := by
  obtain ⟨i, hi, rfl⟩ := mem_vnodeKeys.mp ha
  obtain ⟨j, hj, hk⟩ := mem_vnodeKeys.mp hb
  exact (vnodeHash_injective hi hj (BitVec.eq_of_toNat_eq hk.symm)).1

theorem vnodeKeys_ne_nil (node : NodeId) : (vnodeHash node 0).toNat ∈ vnodeKeys node :=
  mem_vnodeKeys.mpr ⟨0, by decide, rfl⟩

namespace Router

variable {r r' : Router} {n : NodeId} {s : SymbolId}

theorem addNode_nodeSet (r : Router) (n : NodeId) : (r.addNode n).nodeSet = insert n r.nodeSet := by
  unfold addNode
  split
  next h =>
    exact (Finset.insert_eq_of_mem h).symm
  · rfl

theorem removeNode_nodeSet (r : Router) (n : NodeId) :
    (r.removeNode n).nodeSet = r.nodeSet.erase n := by
  unfold removeNode
  split
  · rfl
  next h =>
    exact (Finset.erase_eq_of_notMem h).symm

theorem addNode_ring (h : n ∉ r.nodeSet) :
    (r.addNode n).ring = (vnodeKeys n).foldl (fun ring k => ring.insert k n) r.ring := by
  rw [addNode, if_neg h, vnodeKeys, List.foldl_map]

theorem removeNode_ring (h : n ∈ r.nodeSet) :
    (r.removeNode n).ring = (vnodeKeys n).foldl (fun ring k => ring.erase k) r.ring := by
  rw [removeNode, if_pos h, vnodeKeys, List.foldl_map]

/-! ## The invariant -/

/-- The ring is the set of virtual nodes of the members. -/
def RingOk (r : Router) : Prop :=
  ∀ e, e ∈ r.ring.entries ↔ e.2 ∈ r.nodeSet ∧ e.1 ∈ vnodeKeys e.2

section

variable (hr : r.RingOk)

include hr

theorem RingOk.addNode (n : NodeId) : (r.addNode n).RingOk := by
  by_cases h : n ∈ r.nodeSet
  · rwa [Router.addNode, if_pos h]
  intro e
  rw [addNode_ring h, mem_foldl_insert, hr e, addNode_nodeSet, Finset.mem_insert]
  constructor
  · rintro (⟨hk, hn⟩ | ⟨⟨hmem, hk⟩, -⟩)
    · exact ⟨.inl hn, hn ▸ hk⟩
    · exact ⟨.inr hmem, hk⟩
  rintro ⟨hn | hmem, hk⟩
  · exact .inl ⟨hn ▸ hk, hn⟩
  · refine .inr ⟨⟨hmem, hk⟩, fun hkn => h ?_⟩
    rwa [node_eq_of_key hkn hk]

theorem RingOk.removeNode (n : NodeId) : (r.removeNode n).RingOk := by
  by_cases h : n ∈ r.nodeSet
  · intro e
    rw [removeNode_ring h, mem_foldl_erase, hr e, removeNode_nodeSet, Finset.mem_erase]
    constructor
    · rintro ⟨⟨hmem, hk⟩, hnot⟩
      exact ⟨⟨fun hn => hnot (hn ▸ hk), hmem⟩, hk⟩
    · rintro ⟨⟨hne, hmem⟩, hk⟩
      exact ⟨⟨hmem, hk⟩, fun hkn => hne (node_eq_of_key hk hkn)⟩
  · rwa [Router.removeNode, if_neg h]

theorem RingOk.of_eq (hring : r'.ring = r.ring) (hset : r'.nodeSet = r.nodeSet) : r'.RingOk := by
  intro e
  rw [hring, hset]
  exact hr e

theorem RingOk.ring_eq (hr' : r'.RingOk) (h : r'.nodeSet = r.nodeSet) : r'.ring = r.ring :=
  eq_of_mem_iff fun e => by rw [hr e, hr' e, h]

theorem RingOk.entries_ne_nil (hn : n ∈ r.nodeSet) : r.ring.entries ≠ [] :=
  List.ne_nil_of_mem ((hr ((vnodeHash n 0).toNat, n)).mpr ⟨hn, vnodeKeys_ne_nil n⟩)

end

theorem route_ring (r : Router) (s : SymbolId) :
    (r.route s).2.ring = r.ring ∧ (r.route s).2.nodeSet = r.nodeSet := by
  have h := congrArg (fun q : Router => (q.ring, q.nodeSet)) (r.route_plain s)
  exact Prod.mk.inj h

theorem routeTable_ring (r : Router) (t : TableId) (s : SymbolId) :
    (r.routeTable t s).2.ring = r.ring ∧ (r.routeTable t s).2.nodeSet = r.nodeSet := by
  have h := congrArg (fun q : Router => (q.ring, q.nodeSet)) (r.routeTable_plain t s)
  exact Prod.mk.inj h

end Router

/-- The routers that calls can reach, assigned ones included. -/
inductive Reachable : Router → Prop where
  | new : Reachable new
  | call {r : Router} (call : RouterCall) (h : Reachable r) (hne : ∀ other, call ≠ .assign other) :
      Reachable (routerMachine.step r call).2
  | assign {r other : Router} (h : Reachable r) (hother : Reachable other) :
      Reachable (r.assign other)

variable {r : Router}

theorem ringOk_step {call : RouterCall} (h : r.RingOk)
    (hne : ∀ other, call ≠ .assign other) : (routerMachine.step r call).2.RingOk := by
  cases call with
  | addNode node => exact h.addNode node
  | removeNode node => exact h.removeNode node
  | route symbol => exact h.of_eq (r.route_ring symbol).1 (r.route_ring symbol).2
  | routeTable table symbol =>
    exact h.of_eq (r.routeTable_ring table symbol).1 (r.routeTable_ring table symbol).2
  | setTablePlacement table policy node =>
    simp only [routerMachine, setTablePlacement]
    split
    · exact h
    · split
      · exact h
      · exact h.of_eq rfl rfl
  | endMigration symbol now =>
    simp only [routerMachine, endMigration]
    split
    · exact h.of_eq rfl rfl
    · exact h
  | recentNodes symbol now =>
    simp only [routerMachine, recentNodes]
    split
    · split
      · exact h.of_eq rfl rfl
      · exact h
    · exact h
  | assign other => exact absurd rfl (hne other)
  | _ => exact h.of_eq rfl rfl

section

variable (h : Reachable r)

include h

theorem Reachable.ringOk : r.RingOk := by
  induction h with
  | new => intro e; simp [Router.new, empty]
  | call call _ hne ih => exact ringOk_step ih hne
  | assign _ _ _ ih => exact ih.of_eq rfl rfl

theorem Reachable.cacheOk : r.CacheOk := by
  induction h with
  | new => exact cacheOk_of_cache_eq_empty rfl
  | call call _ _ ih => exact cacheOk_step _ call ih
  | assign _ _ _ _ => exact cacheOk_of_cache_eq_empty rfl

theorem Reachable.addNode (n : NodeId) : Reachable (r.addNode n) := h.call (.addNode n) nofun

theorem Reachable.removeNode (n : NodeId) : Reachable (r.removeNode n) :=
  h.call (.removeNode n) nofun

theorem Reachable.route_eq (s : SymbolId) : (r.route s).1 = r.owner s := h.cacheOk.route_fst s

end

/-! ## Owners and members -/

namespace Router

variable {r r' : Router} {n : NodeId} {s : SymbolId}

section

variable {e : Nat × NodeId}

theorem findNode_eq {ring : Ring} (hne : ring.entries ≠ []) {h : BitVec 64}
    (he : ring.next h.toNat = some e) : findNode ring hne h = e.2 := by
  unfold findNode
  rw [next, Option.or_eq_some_iff] at he
  rcases he with hb | ⟨hb, hhead⟩
  · rw [hb]
  · rw [hb]
    simp only [List.head?_eq_some_head hne, Option.some.injEq] at hhead
    rw [hhead]

theorem owner_of_next (hpin : r.pinned.lookup s = none)
    (he : r.ring.next (symbolHash s).toNat = some e) : r.owner s = .ok e.2 := by
  have hne : r.ring.entries ≠ [] := List.ne_nil_of_mem (isNext_of_next he).1
  simp [owner, hpin, dif_neg hne, findNode_eq hne he]

theorem owner_of_pin {x : NodeId} (hpin : r.pinned.lookup s = some x) : r.owner s = .ok x := by
  simp [owner, hpin]

theorem owner_of_empty (hpin : r.pinned.lookup s = none) (h : r.ring.entries = []) :
    r.owner s = .error .noNodes := by
  simp [owner, hpin, dif_pos h]

theorem owner_congr (hring : r'.ring = r.ring) (hpins : r'.pinned = r.pinned) (s : SymbolId) :
    r'.owner s = r.owner s := by
  unfold owner
  rw [hpins]
  cases r.pinned.lookup s with
  | some x => rfl
  | none =>
    simp only
    by_cases h : r.ring.entries = []
    · rw [dif_pos h, dif_pos (hring ▸ h)]
    · have h' : r'.ring.entries ≠ [] := hring ▸ h
      rw [dif_neg h, dif_neg h']
      congr 2

theorem addNode_pinned (r : Router) (n : NodeId) : (r.addNode n).pinned = r.pinned := by
  unfold addNode
  split <;> rfl

theorem removeNode_pinned (r : Router) (n : NodeId) : (r.removeNode n).pinned = r.pinned := by
  unfold removeNode
  split <;> rfl

section

variable (hr : r.RingOk)

include hr

theorem mem_addNode_ring (he : e ∈ r.ring.entries) : e ∈ (r.addNode n).ring.entries := by
  obtain ⟨hmem, hk⟩ := (hr e).mp he
  exact (hr.addNode n e).mpr ⟨r.addNode_nodeSet n ▸ Finset.mem_insert_of_mem hmem, hk⟩

theorem mem_of_mem_addNode_ring (he : e ∈ (r.addNode n).ring.entries) :
    e.2 = n ∨ e ∈ r.ring.entries := by
  obtain ⟨hmem, hk⟩ := (hr.addNode n e).mp he
  rw [addNode_nodeSet, Finset.mem_insert] at hmem
  rcases hmem with hn | hmem
  · exact .inl hn
  · exact .inr ((hr e).mpr ⟨hmem, hk⟩)

/-- A new member takes over the symbols it gets, and no other symbol moves. -/
theorem owner_addNode (n : NodeId) (s : SymbolId) :
    (r.addNode n).owner s = r.owner s ∨ (r.addNode n).owner s = .ok n := by
  cases hpin : r.pinned.lookup s with
  | some x =>
    left
    rw [owner_of_pin hpin, owner_of_pin (r.addNode_pinned n ▸ hpin)]
  | none =>
    have hpin' : (r.addNode n).pinned.lookup s = none := r.addNode_pinned n ▸ hpin
    by_cases hempty : (r.addNode n).ring.entries = []
    · left
      have hold : r.ring.entries = [] := by
        rw [List.eq_nil_iff_forall_not_mem]
        intro e he
        have := mem_addNode_ring (n := n) hr he
        simp [hempty] at this
      rw [owner_of_empty hpin hold, owner_of_empty hpin' hempty]
    · obtain ⟨e, he⟩ := next_isSome hempty (symbolHash s).toNat
      rw [owner_of_next hpin' he]
      rcases mem_of_mem_addNode_ring hr (isNext_of_next he).1 with hn | hold
      · exact .inr (congrArg _ hn)
      · left
        have hnext := next_of_subset (fun x hx => mem_addNode_ring hr hx) he hold
        exact (owner_of_next hpin hnext).symm

/-- Removing a node that was just added gives the old ring. -/
theorem owner_add_remove (hr' : r'.RingOk) (hset : r'.nodeSet = r.nodeSet)
    (hpins : r'.pinned = r.pinned) (h : n ∉ r.nodeSet) (s : SymbolId) :
    ((r'.addNode n).removeNode n).owner s = r.owner s := by
  refine owner_congr (hr.ring_eq ((hr'.addNode n).removeNode n) ?_) ?_ s
  · rw [removeNode_nodeSet, addNode_nodeSet, Finset.erase_insert (hset ▸ h), hset]
  · rw [removeNode_pinned, addNode_pinned, hpins]

/-- A leaving member gives up its symbols, and no other symbol moves. -/
theorem owner_removeNode (n : NodeId) (s : SymbolId) :
    (r.removeNode n).owner s = r.owner s ∨ r.owner s = .ok n := by
  by_cases h : n ∈ r.nodeSet
  · -- The router is the one without the node, with the node added again.
    have hrem := hr.removeNode n
    have hset : r.nodeSet = ((r.removeNode n).addNode n).nodeSet := by
      rw [addNode_nodeSet, removeNode_nodeSet, Finset.insert_erase h]
    have hback : r.owner s = ((r.removeNode n).addNode n).owner s := by
      refine owner_congr ((hrem.addNode n).ring_eq hr hset) ?_ s
      rw [addNode_pinned, removeNode_pinned]
    rw [hback]
    exact (owner_addNode hrem n s).imp_left symm
  · left
    rw [removeNode, if_neg h]

end

end

end Router

/-- Adding a node moves symbols only to it, removing one only from it, and removing it again brings
every route back. -/
theorem route_moves_minimally (hr : Reachable r) {n : NodeId} (hn : n ∉ r.nodeSet) (s : SymbolId) :
    (((r.addNode n).route s).1 ≠ (r.route s).1 → ((r.addNode n).route s).1 = .ok n) ∧
    (∀ m : NodeId, ((r.removeNode m).route s).1 ≠ (r.route s).1 → (r.route s).1 = .ok m) ∧
    (∀ r' : Router, Reachable r' → r'.nodeSet = r.nodeSet → r'.pinned = r.pinned →
      (((r'.addNode n).removeNode n).route s).1 = (r.route s).1) := by
  refine ⟨?_, fun m => ?_, fun r' hr' hset hpins => ?_⟩
  · rw [(hr.addNode n).route_eq, hr.route_eq]
    exact (owner_addNode hr.ringOk n s).resolve_left
  · rw [(hr.removeNode m).route_eq, hr.route_eq]
    exact (owner_removeNode hr.ringOk m s).resolve_left
  · rw [((hr'.addNode n).removeNode n).route_eq, hr.route_eq]
    exact owner_add_remove hr.ringOk hr'.ringOk hset hpins hn s

/-- Node 3 comes to the nodes 1 and 2 and goes again. -/
theorem route_three_nodes : (3 : NodeId) ∉ ((Router.new.addNode 1).addNode 2).nodeSet ∧
    (((((Router.new.addNode 2).addNode 1).addNode 3).removeNode 3).route 7).1 =
      (((Router.new.addNode 1).addNode 2).route 7).1 := by
  have hr : Reachable ((new.addNode 1).addNode 2) := (Reachable.new.addNode 1).addNode 2
  have hr' : Reachable ((new.addNode 2).addNode 1) := (Reachable.new.addNode 2).addNode 1
  have hset (a b : NodeId) : ((new.addNode a).addNode b).nodeSet = {b, a} := by
    rw [addNode_nodeSet]
    rfl
  have hn : (3 : NodeId) ∉ ((new.addNode 1).addNode 2).nodeSet := by
    decide
  have hsame : ((new.addNode 2).addNode 1).nodeSet = ((new.addNode 1).addNode 2).nodeSet := by
    decide
  exact ⟨hn, (route_moves_minimally hr hn 7).2.2 _ hr' hsame (by
    simp [addNode_pinned])⟩

end Zepto.Cluster
