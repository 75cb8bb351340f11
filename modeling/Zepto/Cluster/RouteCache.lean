import Zepto.Cluster.Router
import Zepto.Lib.Grouping

/-!
# The route cache is invisible

`owner` and `tableOwner` are the node that pins, placements and ring give, without a cache.
`CacheOk` says that every cached node is the ring's current answer; every member function keeps it.
So after any calls `route` answers as `owner` does (`route_eq_owner`), and the router gives the same
answers as `plainRouter`, the machine without the cache (`trace_eq_plain`).
-/

namespace Zepto.Cluster

open Router Zepto.Lib

namespace Router

/-! ## Lookup without a cache -/

section

variable {r r' : Router}

/-- The node of a symbol by the pins and the ring alone. -/
def owner (r : Router) (symbol : SymbolId) : Except RouterError NodeId :=
  match r.pinned.lookup symbol with
  | some node => .ok node
  | none =>
    if hne : r.ring.entries = [] then .error .noNodes
    else .ok (findNode r.ring hne (symbolHash symbol))

/-- The node of a table's symbol, without the cache. -/
def tableOwner (r : Router) (table : TableId) (symbol : SymbolId) : Except RouterError NodeId :=
  if table ≠ 0 then
    match r.tablePlacements.lookup table with
    | some ⟨.pinnedNode, node⟩ =>
      if node = invalidNodeId then .error .pinnedWithoutNode else .ok node
    | some ⟨.hashByTable, _⟩ => r.owner (tableRouteKey table 0)
    | _ => r.owner (tableRouteKey table symbol)
  else r.owner (tableRouteKey table symbol)

/-- Every cached node is the one the ring gives now. -/
def CacheOk (r : Router) : Prop :=
  ∀ symbol node, r.cache.lookup symbol = some node →
    ∃ hne, findNode r.ring hne (symbolHash symbol) = node

theorem cacheOk_of_cache_eq_empty (h : r.cache = ∅) : r.CacheOk := by
  intro symbol node hc
  simp [h] at hc

section

variable (h : r.CacheOk)

include h

theorem cacheOk_of_erase {symbol : SymbolId} (hring : r'.ring = r.ring)
    (hcache : r'.cache = r.cache.erase symbol) : r'.CacheOk := by
  intro s node hc
  rw [hcache] at hc
  rw [hring]
  exact h s node (lookup_of_lookup_erase hc)

theorem cacheOk_of_eq (hring : r'.ring = r.ring) (hcache : r'.cache = r.cache) : r'.CacheOk := by
  intro s node hc
  rw [hring]
  exact h s node (hcache ▸ hc)

theorem CacheOk.route (symbol : SymbolId) : (r.route symbol).2.CacheOk := by
  unfold Router.route
  split
  · exact h
  split
  · exact h
  rename_i hne
  split
  · exact h
  split
  · intro s node hc
    obtain ⟨rfl, rfl⟩ | ⟨-, hold⟩ := lookup_insert_cases hc
    · exact ⟨hne, rfl⟩
    · exact h s node hold
  · exact h

/-- With a right cache, `route` gives the uncached node. -/
theorem CacheOk.route_fst (symbol : SymbolId) : (r.route symbol).1 = r.owner symbol := by
  unfold Router.route owner
  cases r.pinned.lookup symbol with
  | some node => rfl
  | none =>
    simp only
    split
    · rfl
    split
    next hc =>
      obtain ⟨_, hf⟩ := h _ _ hc
      rw [hf]
    · split <;> rfl

theorem CacheOk.routeTable (table : TableId) (symbol : SymbolId) :
    (r.routeTable table symbol).2.CacheOk := by
  unfold Router.routeTable
  split
  · split
    · split <;> exact h
    · exact h.route _
    · exact h.route _
  · exact h.route _

theorem CacheOk.routeTable_fst (table : TableId) (symbol : SymbolId) :
    (r.routeTable table symbol).1 = r.tableOwner table symbol := by
  unfold Router.routeTable tableOwner
  split
  · cases hp : r.tablePlacements.lookup table with
    | none => exact h.route_fst _
    | some placement =>
      obtain ⟨policy, node⟩ := placement
      cases policy with
      | hashByTableAndSymbol | hashByTable => exact h.route_fst _
      | pinnedNode => simp only; split <;> rfl
  · exact h.route_fst _

end

end

end Router

/-! ## Calls -/

/-- A call of a member function, with the time where it reads the clock. -/
inductive RouterCall where
  | addNode (node : NodeId)
  | removeNode (node : NodeId)
  | route (symbol : SymbolId)
  | routeTable (table : TableId) (symbol : SymbolId)
  | setTablePlacement (table : TableId) (policy : TablePlacementPolicy) (node : NodeId)
  | clearTablePlacement (table : TableId)
  | pinSymbol (symbol : SymbolId) (node : NodeId)
  | unpinSymbol (symbol : SymbolId)
  | beginMigration (symbol : SymbolId) (src dst : NodeId)
  | endMigration (symbol : SymbolId) (now : Int)
  | commitMigration (symbol : SymbolId) (owner : NodeId)
  | abortMigration (symbol : SymbolId)
  | recentNodes (symbol : SymbolId) (now : Int)
  | setMigrationGracePeriod (sec : Int)
  | assign (other : Router)

inductive RouterAnswer where
  | unit
  | node (result : Except RouterError NodeId)
  | placed (result : Except RouterError Unit)
  | nodes (pair : Option (NodeId × NodeId))

def routerMachine : Machine Router RouterCall RouterAnswer where
  step r
    | .addNode node => (.unit, r.addNode node)
    | .removeNode node => (.unit, r.removeNode node)
    | .route symbol => (.node (r.route symbol).1, (r.route symbol).2)
    | .routeTable table symbol =>
      (.node (r.routeTable table symbol).1, (r.routeTable table symbol).2)
    | .setTablePlacement table policy node =>
      (.placed (r.setTablePlacement table policy node).1,
        (r.setTablePlacement table policy node).2)
    | .clearTablePlacement table => (.unit, r.clearTablePlacement table)
    | .pinSymbol symbol node => (.unit, r.pinSymbol symbol node)
    | .unpinSymbol symbol => (.unit, r.unpinSymbol symbol)
    | .beginMigration symbol src dst => (.unit, r.beginMigration symbol src dst)
    | .endMigration symbol now => (.unit, r.endMigration symbol now)
    | .commitMigration symbol owner => (.unit, r.commitMigration symbol owner)
    | .abortMigration symbol => (.unit, r.abortMigration symbol)
    | .recentNodes symbol now => (.nodes (r.recentNodes symbol now).1, (r.recentNodes symbol now).2)
    | .setMigrationGracePeriod sec => (.unit, r.setMigrationGracePeriod sec)
    | .assign other => (.unit, r.assign other)

theorem cacheOk_step (r : Router) (call : RouterCall) (h : r.CacheOk) :
    (routerMachine.step r call).2.CacheOk := by
  cases call with
  | addNode node =>
    simp only [routerMachine, addNode]
    split
    · exact h
    · exact cacheOk_of_cache_eq_empty rfl
  | removeNode node =>
    simp only [routerMachine, removeNode]
    split
    · exact cacheOk_of_cache_eq_empty rfl
    · exact h
  | route symbol => exact h.route symbol
  | routeTable table symbol => exact h.routeTable table symbol
  | setTablePlacement table policy node =>
    simp only [routerMachine, setTablePlacement]
    split
    · exact h
    · split
      · exact h
      · exact cacheOk_of_cache_eq_empty rfl
  | clearTablePlacement table => exact cacheOk_of_cache_eq_empty rfl
  | pinSymbol symbol node | unpinSymbol symbol => exact cacheOk_of_erase h rfl rfl
  | beginMigration symbol src dst => exact cacheOk_of_eq h rfl rfl
  | endMigration symbol now =>
    simp only [routerMachine, endMigration]
    split
    · exact cacheOk_of_eq h rfl rfl
    · exact h
  | commitMigration symbol owner => exact cacheOk_of_erase h rfl rfl
  | abortMigration symbol => exact cacheOk_of_eq h rfl rfl
  | recentNodes symbol now =>
    simp only [routerMachine, recentNodes]
    split
    · split
      · exact cacheOk_of_eq h rfl rfl
      · exact h
    · exact h
  | setMigrationGracePeriod sec => exact cacheOk_of_eq h rfl rfl
  | assign other => exact cacheOk_of_cache_eq_empty rfl

def routerAfter (calls : List RouterCall) : Router := routerMachine.run new calls

theorem cacheOk_routerAfter (calls : List RouterCall) : (routerAfter calls).CacheOk :=
  routerMachine.invariant_run cacheOk_step (cacheOk_of_cache_eq_empty rfl) calls

/-- After any calls, `route` answers what the pins, placements and ring give. -/
theorem route_eq_owner (calls : List RouterCall) (table : TableId) (symbol : SymbolId) :
    ((routerAfter calls).route symbol).1 = (routerAfter calls).owner symbol ∧
    ((routerAfter calls).routeTable table symbol).1 = (routerAfter calls).tableOwner table symbol :=
  ⟨(cacheOk_routerAfter calls).route_fst symbol,
    (cacheOk_routerAfter calls).routeTable_fst table symbol⟩

/-! ## The router without a cache -/

def Router.plain (r : Router) : Router := { r with cache := ∅ }

def plainRouter : Machine Router RouterCall RouterAnswer where
  step r
    | .route symbol => (.node (r.owner symbol), r)
    | .routeTable table symbol => (.node (r.tableOwner table symbol), r)
    | call => ((routerMachine.step r call).1, (routerMachine.step r call).2.plain)

theorem Router.route_plain (r : Router) (symbol : SymbolId) :
    (r.route symbol).2.plain = r.plain := by
  unfold route
  split
  · rfl
  split
  · rfl
  split
  · rfl
  · simp only
    split <;> rfl

theorem Router.routeTable_plain (r : Router) (table : TableId) (symbol : SymbolId) :
    (r.routeTable table symbol).2.plain = r.plain := by
  unfold routeTable
  split
  · split
    · split <;> rfl
    · exact r.route_plain _
    · exact r.route_plain _
  · exact r.route_plain _

theorem plain_step (r : Router) (call : RouterCall) :
    (routerMachine.step r call).2.plain = (plainRouter.step r.plain call).2 := by
  cases call with
  | route symbol => exact r.route_plain symbol
  | routeTable table symbol => exact r.routeTable_plain table symbol
  | addNode node =>
    simp only [plainRouter, routerMachine, addNode, plain]
    split <;> rfl
  | removeNode node =>
    simp only [plainRouter, routerMachine, removeNode, plain]
    split <;> rfl
  | setTablePlacement table policy node =>
    simp only [plainRouter, routerMachine, setTablePlacement]
    split
    · rfl
    · split <;> rfl
  | endMigration symbol now =>
    simp only [plainRouter, routerMachine, endMigration, plain]
    split <;> rfl
  | recentNodes symbol now =>
    simp only [plainRouter, routerMachine, recentNodes, plain]
    split
    · split <;> rfl
    · rfl
  | clearTablePlacement table | pinSymbol symbol node | unpinSymbol symbol
  | beginMigration symbol src dst | commitMigration symbol owner | abortMigration symbol
  | setMigrationGracePeriod sec | assign other => rfl

theorem answer_step (r : Router) (call : RouterCall) (h : r.CacheOk) :
    (routerMachine.step r call).1 = (plainRouter.step r.plain call).1 := by
  cases call with
  | route symbol => exact congrArg RouterAnswer.node (h.route_fst symbol)
  | routeTable table symbol => exact congrArg RouterAnswer.node (h.routeTable_fst table symbol)
  | setTablePlacement table policy node =>
    simp only [plainRouter, routerMachine, setTablePlacement]
    split
    · rfl
    · split <;> rfl
  | recentNodes symbol now =>
    simp only [plainRouter, routerMachine, recentNodes, plain]
    split
    · split <;> rfl
    · rfl
  | _ => rfl

/-- No sequence of calls tells the router from the one that has no cache. -/
theorem trace_eq_plain (calls : List RouterCall) :
    routerMachine.trace new calls = plainRouter.trace new calls :=
  routerMachine.trace_eq plainRouter plain cacheOk_step answer_step
    (fun r call _ => plain_step r call) (cacheOk_of_cache_eq_empty rfl) calls

end Zepto.Cluster
