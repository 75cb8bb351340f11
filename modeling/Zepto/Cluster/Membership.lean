import Zepto.Cluster.Plan

/-!
# Routes and members

Pins, placements and the ring decide routes, and only the ring follows the members. Replicas come
from the ring alone: `routeReplica` walks on from the symbol's position to the next other node.
`routes_live_iff` says in which reachable routers every route leads to a member and every replica
to another one.
-/

namespace Zepto.Cluster

open Router List Zepto.Lib

/-! ## Replicas -/

/-- The loop of `route_replica`: on to a node other than the primary, once around. -/
def walkRing (entries : List (Nat × NodeId)) (primary : NodeId) : Nat → Nat → NodeId
  | 0, _ => invalidNodeId
  | steps + 1, i =>
    let i := if i + 1 < entries.length then i + 1 else 0
    match entries[i]? with
    | some (_, node) => if node ≠ primary then node else walkRing entries primary steps i
    | none => invalidNodeId

namespace Router

/-- `route_replica(symbol)`. -/
def routeReplica (r : Router) (symbol : SymbolId) : NodeId :=
  if r.nodeSet.card < 2 then invalidNodeId
  else if hne : r.ring.entries = [] then invalidNodeId
  else
    let h := symbolHash symbol
    let primary := findNode r.ring hne h
    let i := r.ring.entries.findIdx fun e => h.toNat ≤ e.1
    let i := if i < r.ring.entries.length then i else 0
    walkRing r.ring.entries primary r.ring.entries.length i

/-- `route_replica(table_id, symbol)`. -/
def routeReplicaTable (r : Router) (table : TableId) (symbol : SymbolId) :
    Except RouterError NodeId :=
  if table ≠ 0 then
    match r.tablePlacements.lookup table with
    | some ⟨.pinnedNode, node⟩ =>
      if node = invalidNodeId then .error .pinnedWithoutNode else .ok node
    | some ⟨.hashByTable, _⟩ => .ok (r.routeReplica (tableRouteKey table 0))
    | _ => .ok (r.routeReplica (tableRouteKey table symbol))
  else .ok (r.routeReplica (tableRouteKey table symbol))

end Router

/-- The entries from position `i` on, once around. -/
def around (entries : List (Nat × NodeId)) (i : Nat) : List (Nat × NodeId) :=
  entries.drop i ++ entries.take i

/-- The node of the first entry that is not the primary's. -/
def firstOther (entries : List (Nat × NodeId)) (primary : NodeId) : Option NodeId :=
  (entries.find? fun e => e.2 ≠ primary).map Prod.snd

theorem firstOther_cons (e : Nat × NodeId) (l : List (Nat × NodeId)) (primary : NodeId) :
    firstOther (e :: l) primary = if e.2 ≠ primary then some e.2 else firstOther l primary := by
  by_cases h : e.2 = primary <;> simp [firstOther, h]

theorem walkRing_eq (entries : List (Nat × NodeId)) (primary : NodeId) {steps i : Nat}
    (hi : i < entries.length) (hs : steps ≤ entries.length) :
    walkRing entries primary steps i =
      (firstOther ((around entries (i + 1)).take steps) primary).getD invalidNodeId := by
  induction steps generalizing i with
  | zero => simp [walkRing, firstOther]
  | succ steps ih =>
    -- The next position, and the entries from there on.
    obtain ⟨k, hk, hpos, hnext⟩ : ∃ k, k < entries.length ∧
        (if i + 1 < entries.length then i + 1 else 0) = k ∧
        around entries (i + 1) = around entries k := by
      by_cases hlt : i + 1 < entries.length
      · exact ⟨i + 1, hlt, if_pos hlt, rfl⟩
      · have hlen : i + 1 = entries.length := by omega
        refine ⟨0, by omega, if_neg hlt, ?_⟩
        simp [around, hlen]
    have hsplit : around entries k = entries.get ⟨k, hk⟩ ::
        (entries.drop (k + 1) ++ entries.take k) := by
      rw [around, drop_eq_getElem_cons hk]
      rfl
    have hrest : (entries.drop (k + 1) ++ entries.take k).take steps =
        (around entries (k + 1)).take steps := by
      have htake : entries.take (k + 1) = entries.take k ++ [entries.get ⟨k, hk⟩] :=
        take_succ_eq_append_getElem hk
      rw [around, htake, ← append_assoc]
      refine (take_append_of_le_length ?_).symm
      simp only [length_append, length_drop, length_take]
      omega
    rw [walkRing, hpos, getElem?_eq_getElem hk, hnext, hsplit, take_succ_cons,
      firstOther_cons, hrest]
    simp only [get_eq_getElem]
    by_cases hnode : (entries[k]).2 = primary
    · rw [if_neg (not_not.mpr hnode), if_neg (not_not.mpr hnode)]
      exact ih hk (by omega)
    · rw [if_pos hnode, if_pos hnode]
      rfl

/-- The first node after a position that does not hold it. -/
def secondHolder (ring : Ring) (h : BitVec 64) : Option NodeId :=
  (holder ring h).bind
    (firstOther (around ring.entries (ring.entries.findIdx fun e => h.toNat ≤ e.1)))

theorem firstOther_append_self {e : Nat × NodeId} {l : List (Nat × NodeId)} {primary : NodeId}
    (h : e.2 = primary) : firstOther (l ++ [e]) primary = firstOther l primary := by
  simp [firstOther, h]

theorem next_eq_getElem (ring : Ring) (hne : ring.entries ≠ []) (h : Nat) :
    ∃ i, ∃ hi : i < ring.entries.length,
      (if ring.entries.findIdx (fun e => h ≤ e.1) < ring.entries.length
        then ring.entries.findIdx (fun e => h ≤ e.1) else 0) = i ∧
      around ring.entries (ring.entries.findIdx fun e => h ≤ e.1) = around ring.entries i ∧
      ring.next h = some (ring.entries.get ⟨i, hi⟩) := by
  by_cases hlt : ring.entries.findIdx (fun e => h ≤ e.1) < ring.entries.length
  · refine ⟨_, hlt, if_pos hlt, rfl, ?_⟩
    have hfind : ring.lowerBound h = some (ring.entries.get ⟨_, hlt⟩) := by
      rw [SortedMap.lowerBound, find?_eq_some_iff_getElem]
      have hstop := findIdx_getElem (w := hlt)
      refine ⟨hstop, _, hlt, rfl, fun j hj => ?_⟩
      simpa using not_of_lt_findIdx hj
    rw [SortedMap.next, hfind]
    rfl
  · have hlen : ring.entries.findIdx (fun e => h ≤ e.1) = ring.entries.length :=
      le_antisymm findIdx_le_length (not_lt.mp hlt)
    have hpos : 0 < ring.entries.length := length_pos_iff.mpr hne
    have hfind : ring.lowerBound h = none := by
      rw [SortedMap.lowerBound, ← Option.not_isSome_iff_eq_none, find?_isSome]
      rintro ⟨e, he, hle⟩
      exact absurd (findIdx_lt_length_of_exists ⟨e, he, hle⟩) (by omega)
    refine ⟨0, hpos, if_neg hlt, ?_, ?_⟩
    · rw [hlen]
      simp [around]
    · rw [SortedMap.next, hfind, head?_eq_getElem?, getElem?_eq_getElem hpos]
      rfl

namespace Router

variable {r : Router} {n x : NodeId} {s : SymbolId}

/-- The walk finds the second node of the symbol's position. -/
theorem routeReplica_eq (hne : r.ring.entries ≠ []) (hcard : 2 ≤ r.nodeSet.card) :
    r.routeReplica s = (secondHolder r.ring (symbolHash s)).getD invalidNodeId := by
  obtain ⟨i, hi, hidx, haround, hnext⟩ := next_eq_getElem r.ring hne (symbolHash s).toNat
  have hprimary : findNode r.ring hne (symbolHash s) = (r.ring.entries.get ⟨i, hi⟩).2 :=
    findNode_eq hne hnext
  have hsplit : around r.ring.entries i =
      r.ring.entries.get ⟨i, hi⟩ :: (r.ring.entries.drop (i + 1) ++ r.ring.entries.take i) := by
    rw [around, drop_eq_getElem_cons hi]
    rfl
  have hafter : around r.ring.entries (i + 1) =
      (r.ring.entries.drop (i + 1) ++ r.ring.entries.take i) ++ [r.ring.entries.get ⟨i, hi⟩] := by
    rw [around, take_succ_eq_append_getElem hi, append_assoc]
    rfl
  have hlen : (around r.ring.entries (i + 1)).length = r.ring.entries.length := by
    simp only [around, length_append, length_drop, length_take]
    omega
  rw [routeReplica, if_neg (by omega), dif_neg hne]
  simp only [hidx]
  rw [walkRing_eq _ _ hi (le_refl _), take_of_length_le (by omega), hafter,
    firstOther_append_self hprimary.symm, secondHolder, holder_eq hne, haround, hsplit]
  simp [firstOther_cons, hprimary]

/-- With two members there is a second node, and it is a member. -/
theorem secondHolder_mem (hr : r.RingOk) (hcard : 2 ≤ r.nodeSet.card) (h : BitVec 64) :
    ∃ y ∈ r.nodeSet, secondHolder r.ring h = some y ∧ holder r.ring h ≠ some y := by
  obtain ⟨m, hm⟩ : r.nodeSet.Nonempty := Finset.card_pos.mp (by omega)
  have hne := hr.entries_ne_nil hm
  obtain ⟨primary, hprimary⟩ : ∃ p, holder r.ring h = some p := ⟨_, holder_eq hne h⟩
  have hmem (i : Nat) (e : Nat × NodeId) : e ∈ around r.ring.entries i ↔ e ∈ r.ring.entries := by
    rw [around, mem_append, or_comm, ← mem_append, take_append_drop]
  obtain ⟨other, hother, hdiff⟩ := Finset.exists_mem_ne (show 1 < r.nodeSet.card by omega) primary
  have hentry := (hr ((vnodeHash other 0).toNat, other)).mpr ⟨hother, vnodeKeys_ne_nil other⟩
  obtain ⟨e, he⟩ : ∃ e,
      (around r.ring.entries (r.ring.entries.findIdx fun e => h.toNat ≤ e.1)).find?
      (fun e => e.2 ≠ primary) = some e := by
    rw [← Option.isSome_iff_exists, find?_isSome]
    exact ⟨_, (hmem _ _).mpr hentry, by simpa using hdiff⟩
  refine ⟨e.2, ?_, ?_, ?_⟩
  · exact ((hr e).mp ((hmem _ e).mp (mem_of_find?_eq_some he))).1
  · rw [secondHolder, hprimary, Option.bind_some, firstOther, he]
    rfl
  · have hp : e.2 ≠ primary := by simpa using find?_some he
    rw [hprimary]
    exact fun heq => hp (Option.some.inj heq).symm

/-! ## What decides a table's route -/

/-- The symbol looked up for a table's row, unless the table is pinned. -/
def routeKey (r : Router) (table : TableId) (symbol : SymbolId) : Option SymbolId :=
  if table = 0 then some symbol
  else
    match r.tablePlacements.lookup table with
    | some ⟨.pinnedNode, _⟩ => none
    | some ⟨.hashByTable, _⟩ => some (tableRouteKey table 0)
    | _ => some (tableRouteKey table symbol)

theorem tableRouteKey_zero (s : SymbolId) : tableRouteKey 0 s = s := by
  simp [tableRouteKey]

@[simp]
theorem routeKey_zero (r : Router) (s : SymbolId) : r.routeKey 0 s = some s := if_pos rfl

variable {t : TableId} {key : SymbolId}

/-- A row with a key is routed as its key is, and so is its replica. -/
theorem routes_of_routeKey (h : r.routeKey t s = some key) :
    r.tableOwner t s = r.owner key ∧ r.routeReplicaTable t s = .ok (r.routeReplica key) := by
  unfold tableOwner routeReplicaTable
  unfold routeKey at h
  by_cases ht : t = 0
  · subst ht
    simp only [if_true, Option.some.injEq] at h
    subst h
    simp only [ne_eq, not_true_eq_false, if_false, tableRouteKey_zero, and_self]
  simp only [ht, if_false, ne_eq] at h ⊢
  split at h
  · cases h
  · cases h
    simp_all
  rename_i hpinned hbyTable
  cases h
  cases hp : r.tablePlacements.lookup t with
  | none => exact ⟨rfl, rfl⟩
  | some placement =>
    obtain ⟨policy, node⟩ := placement
    cases policy with
    | hashByTableAndSymbol => exact ⟨rfl, rfl⟩
    | hashByTable => exact absurd hp (hbyTable node)
    | pinnedNode => exact absurd hp (hpinned node)

theorem routeKey_eq_none (h : r.routeKey t s = none) :
    t ≠ 0 ∧ ∃ x, r.tablePlacements.lookup t = some ⟨.pinnedNode, x⟩ := by
  unfold routeKey at h
  split at h
  · cases h
  rename_i ht
  split at h
  next x hp =>
    exact ⟨ht, x, hp⟩
  · cases h
  · cases h

/-- A pinned table is not table 0, and its node is a real id. -/
def PlacementsOk (r : Router) : Prop :=
  ∀ t x, r.tablePlacements.lookup t = some ⟨.pinnedNode, x⟩ → t ≠ 0 ∧ x ≠ invalidNodeId

section

variable (h : r.PlacementsOk)

include h

/-- All rows of a pinned table go to its node, and so do their replicas. -/
theorem routes_of_pinned (hp : r.tablePlacements.lookup t = some ⟨.pinnedNode, x⟩) (s : SymbolId) :
    r.tableOwner t s = .ok x ∧ r.routeReplicaTable t s = .ok x := by
  obtain ⟨ht, hx⟩ := h t x hp
  simp only [tableOwner, routeReplicaTable, if_pos ht, hp, if_neg hx, and_self]

theorem PlacementsOk.of_eq {r' : Router}
    (heq : r'.tablePlacements = r.tablePlacements) : r'.PlacementsOk :=
  fun t x hp => h t x (heq ▸ hp)

theorem PlacementsOk.setTablePlacement (t : TableId)
    (policy : TablePlacementPolicy) (x : NodeId) :
    (r.setTablePlacement t policy x).2.PlacementsOk := by
  unfold Router.setTablePlacement
  split
  · exact h
  rename_i ht
  split
  · exact h
  rename_i hnode
  intro u y hp
  obtain ⟨rfl, hy⟩ | ⟨-, hold⟩ := lookup_insert_cases hp
  · cases hy
    exact ⟨ht, fun hinv => hnode ⟨rfl, hinv⟩⟩
  · exact h u y hold

theorem PlacementsOk.clearTablePlacement (t : TableId) : (r.clearTablePlacement t).PlacementsOk :=
  fun u y hp => h u y (lookup_of_lookup_erase hp)

end

end Router

variable {r : Router}

theorem placementsOk_step {call : RouterCall} (h : r.PlacementsOk)
    (hne : ∀ other, call ≠ .assign other) : (routerMachine.step r call).2.PlacementsOk := by
  cases call with
  | setTablePlacement t policy x => exact h.setTablePlacement t policy x
  | clearTablePlacement t => exact h.clearTablePlacement t
  | route s => exact h.of_eq (congrArg tablePlacements (r.route_plain s) :)
  | routeTable t s => exact h.of_eq (congrArg tablePlacements (r.routeTable_plain t s) :)
  | addNode | removeNode | endMigration =>
    refine h.of_eq ?_
    simp only [routerMachine, addNode, removeNode, endMigration]
    split <;> rfl
  | recentNodes s now =>
    refine h.of_eq ?_
    simp only [routerMachine, recentNodes]
    split
    · split <;> rfl
    · rfl
  | assign other => exact absurd rfl (hne other)
  | pinSymbol s x | unpinSymbol s | beginMigration s a b | commitMigration s x
  | abortMigration s | setMigrationGracePeriod sec => exact h

theorem Reachable.placementsOk (h : Reachable r) : r.PlacementsOk := by
  induction h with
  | new =>
    intro t x hp
    simp [Router.new] at hp
  | call call _ hne ih => exact placementsOk_step ih hne
  | assign _ _ _ ihother => exact ihother

theorem Reachable.routeTable_eq (h : Reachable r) (t : TableId) (s : SymbolId) :
    (r.routeTable t s).1 = r.tableOwner t s :=
  h.cacheOk.routeTable_fst t s

/-! ## Live routes -/

namespace Router

/-- Every route leads to a member, and with two members every replica to another one. -/
structure RoutesLive (r : Router) : Prop where
  route : ∀ s, ∃ x ∈ r.nodeSet, (r.route s).1 = .ok x
  table : ∀ t s, ∃ x ∈ r.nodeSet, (r.routeTable t s).1 = .ok x
  replica : 2 ≤ r.nodeSet.card → ∀ t s, ∃ y ∈ r.nodeSet,
    r.routeReplicaTable t s = .ok y ∧ (r.routeTable t s).1 ≠ .ok y

/-- The pins and the placements follow the members. -/
structure PinsLive (r : Router) : Prop where
  pins : ∀ s x, r.pinned.lookup s = some x → x ∈ r.nodeSet
  placements : ∀ t x, r.tablePlacements.lookup t = some ⟨.pinnedNode, x⟩ → x ∈ r.nodeSet
  /-- No symbol is pinned to the node that has its replica. -/
  apart : 2 ≤ r.nodeSet.card → ∀ s x, r.pinned.lookup s = some x →
    secondHolder r.ring (symbolHash s) ≠ some x
  /-- A pinned table has its replica on the same node. -/
  unplaced : 2 ≤ r.nodeSet.card → ∀ t x, r.tablePlacements.lookup t ≠ some ⟨.pinnedNode, x⟩

variable {r : Router} {x : NodeId} {s : SymbolId}

theorem pinsLive_of_empty (hpins : r.pinned = ∅) (hplaced : r.tablePlacements = ∅) :
    r.PinsLive := by
  refine ⟨fun s x hp => ?_, fun t x hp => ?_, fun _ s x hp => ?_, fun _ t x hp => ?_⟩
  · simp [hpins] at hp
  · simp [hplaced] at hp
  · simp [hpins] at hp
  · simp [hplaced] at hp

theorem PinsLive.owner_mem (h : r.PinsLive) (hr : r.RingOk) (hne : r.nodeSet.Nonempty)
    (s : SymbolId) : ∃ x ∈ r.nodeSet, r.owner s = .ok x := by
  cases hpin : r.pinned.lookup s with
  | some x => exact ⟨x, h.pins s x hpin, owner_of_pin hpin⟩
  | none =>
    have hx := holder_eq (hr.entries_ne_nil hne.choose_spec) (symbolHash s)
    exact ⟨_, hr.holder_mem hx, owner_of_holder hpin hx⟩

/-- The second node of a symbol has the replica, unless a pin made it the owner. -/
theorem routeReplica_second (hr : r.RingOk) (hcard : 2 ≤ r.nodeSet.card) (s : SymbolId) :
    r.routeReplica s ∈ r.nodeSet ∧ secondHolder r.ring (symbolHash s) = some (r.routeReplica s) ∧
      (r.owner s = .ok (r.routeReplica s) → r.pinned.lookup s = some (r.routeReplica s)) := by
  obtain ⟨m, hm⟩ : r.nodeSet.Nonempty := Finset.card_pos.mp (by omega)
  obtain ⟨y, hy, hsecond, hdiff⟩ := secondHolder_mem hr hcard (symbolHash s)
  have hreplica : r.routeReplica s = y := by
    rw [routeReplica_eq (hr.entries_ne_nil hm) hcard, hsecond]
    rfl
  rw [hreplica]
  refine ⟨hy, hsecond, fun hown => ?_⟩
  cases hpin : r.pinned.lookup s with
  | none => exact absurd (holder_of_owner hpin hown) hdiff
  | some x =>
    rw [owner_of_pin hpin] at hown
    exact congrArg some (Except.ok.inj hown)

theorem PinsLive.routesLive (h : r.PinsLive) (hr : Reachable r) (hne : r.nodeSet.Nonempty) :
    r.RoutesLive := by
  refine ⟨fun s => ?_, fun t s => ?_, fun hcard t s => ?_⟩
  · rw [hr.route_eq]
    exact h.owner_mem hr.ringOk hne s
  · rw [hr.routeTable_eq]
    cases hkey : r.routeKey t s with
    | some key =>
      rw [(routes_of_routeKey hkey).1]
      exact h.owner_mem hr.ringOk hne key
    | none =>
      obtain ⟨-, x, hp⟩ := routeKey_eq_none hkey
      exact ⟨x, h.placements t x hp, (routes_of_pinned hr.placementsOk hp s).1⟩
  · rw [hr.routeTable_eq]
    cases hkey : r.routeKey t s with
    | some key =>
      obtain ⟨hmem, hsecond, hpin⟩ := routeReplica_second hr.ringOk hcard key
      rw [(routes_of_routeKey hkey).1]
      refine ⟨_, hmem, (routes_of_routeKey hkey).2, fun hown => ?_⟩
      exact h.apart hcard key _ (hpin hown) hsecond
    | none =>
      obtain ⟨-, x, hp⟩ := routeKey_eq_none hkey
      exact absurd hp (h.unplaced hcard t x)

theorem RoutesLive.pinsLive (h : r.RoutesLive) (hr : Reachable r) : r.PinsLive := by
  refine ⟨fun s x hpin => ?_, fun t x hp => ?_, fun hcard s x hpin hsecond => ?_,
    fun hcard t x hp => ?_⟩
  · obtain ⟨y, hy, hroute⟩ := h.route s
    rw [hr.route_eq, owner_of_pin hpin] at hroute
    exact Except.ok.inj hroute ▸ hy
  · obtain ⟨y, hy, hroute⟩ := h.table t 0
    rw [hr.routeTable_eq, (routes_of_pinned hr.placementsOk hp 0).1] at hroute
    exact Except.ok.inj hroute ▸ hy
  · obtain ⟨y, -, hreplica, hdiff⟩ := h.replica hcard 0 s
    obtain ⟨howner, hkey⟩ := routes_of_routeKey (r.routeKey_zero s)
    rw [hkey] at hreplica
    obtain ⟨-, hsecond', -⟩ := routeReplica_second hr.ringOk hcard s
    rw [hsecond] at hsecond'
    rw [hr.routeTable_eq, howner, owner_of_pin hpin, ← hreplica,
      ← Option.some.inj hsecond'] at hdiff
    exact hdiff rfl
  · obtain ⟨y, -, hreplica, hdiff⟩ := h.replica hcard t 0
    obtain ⟨howner, hsame⟩ := routes_of_pinned hr.placementsOk hp 0
    rw [hr.routeTable_eq, howner, ← hreplica, hsame] at hdiff
    exact hdiff rfl

end Router

/-- Routes are live exactly while the pins and the placements follow the members. -/
theorem routes_live_iff (hr : Reachable r) (hne : r.nodeSet.Nonempty) : r.RoutesLive ↔ r.PinsLive :=
  ⟨fun h => h.pinsLive hr, fun h => h.routesLive hr hne⟩

/-- Two nodes, no pins and no placements. -/
theorem routes_live_two_nodes : ((Router.new.addNode 1).addNode 2).RoutesLive := by
  have hset : ((new.addNode 1).addNode 2).nodeSet = {2, 1} := by
    rfl
  have hpins : ((new.addNode 1).addNode 2).pinned = ∅ := by
    rfl
  have hplaced : ((new.addNode 1).addNode 2).tablePlacements = ∅ := by
    rfl
  exact (routes_live_iff ((Reachable.new.addNode 1).addNode 2)
    (hset ▸ Finset.insert_nonempty 2 {1})).mpr (pinsLive_of_empty hpins hplaced)

/-- Symbol 5 is pinned to node 2, which leaves: it is still routed there. -/
theorem route_stays_at_removed_node :
    Reachable ((((Router.new.addNode 1).addNode 2).pinSymbol 5 2).removeNode 2) ∧
    ((((Router.new.addNode 1).addNode 2).pinSymbol 5 2).removeNode 2).nodeSet = {1} ∧
    (((((Router.new.addNode 1).addNode 2).pinSymbol 5 2).removeNode 2).route 5).1 = .ok 2 := by
  have hr : Reachable (((new.addNode 1).addNode 2).pinSymbol 5 2) :=
    .call (.pinSymbol 5 2) ((Reachable.new.addNode 1).addNode 2) (fun _ => by simp)
  refine ⟨hr.removeNode 2, ?_, ?_⟩
  · rw [removeNode_nodeSet]
    show (((new.addNode 1).addNode 2).nodeSet).erase 2 = {1}
    decide
  · rw [(hr.removeNode 2).route_eq]
    refine owner_of_pin ?_
    exact AList.lookup_insert _

end Zepto.Cluster
