import Mathlib.Data.BitVec
import Mathlib.Data.List.AList
import Zepto.Common.Types
import Zepto.Lib.Machine
import Zepto.Lib.SortedMap

/-!
# The partition router

`PartitionRouter` maps a symbol to the node that owns it: a pinned symbol goes to its pin, any other
to the first virtual node at or after its hash on the ring. Lookups on the ring are remembered in
`cache`, which a change of the ring or of the placements clears and a change of a pin clears at its
symbol. A member function that throws leaves the state as it was. `std::map` is a `SortedMap`,
`std::unordered_map` an `AList`. Calls come one after another, as the locks make the mutators.
-/

namespace Zepto.Cluster

open Zepto.Lib

/-- `INVALID_NODE_ID`, the largest node id. -/
def invalidNodeId : NodeId := .allOnes 32

inductive TablePlacementPolicy where
  | hashByTableAndSymbol
  | hashByTable
  | pinnedNode
  deriving DecidableEq

structure TablePlacement where
  policy : TablePlacementPolicy := .hashByTableAndSymbol
  nodeId : NodeId := invalidNodeId
  deriving DecidableEq

inductive RouterError where
  | noNodes
  | pinnedWithoutNode
  | zeroTableId
  | pinRequiresNode
  deriving DecidableEq

def RouterError.message : RouterError → String
  | noNodes => "PartitionRouter: no nodes in cluster"
  | pinnedWithoutNode => "PartitionRouter: pinned table placement has no node"
  | zeroTableId => "PartitionRouter: table placement requires non-zero table_id"
  | pinRequiresNode => "PartitionRouter: pinned table placement requires node_id"

/-- `VNODES_PER_NODE`. -/
def vnodesPerNode : Nat := 128

/-- `MAX_CACHE_SIZE`. -/
def maxCacheSize : Nat := 65536

def fnvStep (h : BitVec 64) (byte : BitVec 8) : BitVec 64 :=
  (h ^^^ byte.setWidth 64) * 1099511628211#64

/-- FNV-1a over the four bytes of the symbol id, lowest first. -/
def symbolHash (sym : SymbolId) : BitVec 64 :=
  [sym.extractLsb' 0 8, sym.extractLsb' 8 8, sym.extractLsb' 16 8, sym.extractLsb' 24 8].foldl
    fnvStep 14695981039346656037#64

/-- Splitmix64 of the node id and the virtual index. -/
def vnodeHash (node : NodeId) (idx : Nat) : BitVec 64 :=
  let key := (node.setWidth 64 <<< 32) ||| (.ofNat 64 idx &&& 0xFFFFFFFF#64)
  let key := key + 0x9e3779b97f4a7c15#64
  let key := (key ^^^ (key >>> 30)) * 0xbf58476d1ce4e5b9#64
  let key := (key ^^^ (key >>> 27)) * 0x94d049bb133111eb#64
  key ^^^ (key >>> 31)

abbrev Ring := SortedMap Nat NodeId

/-- The first virtual node at or after `h`, around the end of the ring. -/
def findNode (ring : Ring) (hne : ring.entries ≠ []) (h : BitVec 64) : NodeId :=
  match ring.lowerBound h.toNat with
  | some (_, node) => node
  | none => (ring.entries.head hne).2

/-- The symbol a table's rows are routed by. -/
def tableRouteKey (table : TableId) (symbol : SymbolId) : SymbolId :=
  symbol ^^^ (table.setWidth 64 <<< 16).setWidth 32

/-! ## The router -/

structure Router where
  ring : Ring := .empty
  nodeSet : Finset NodeId := ∅
  cache : AList (fun _ : SymbolId => NodeId) := ∅
  pinned : AList (fun _ : SymbolId => NodeId) := ∅
  tablePlacements : AList (fun _ : TableId => TablePlacement) := ∅
  migrating : AList (fun _ : SymbolId => NodeId × NodeId) := ∅
  /-- The two nodes of a finished migration and the time it ended, in nanoseconds. -/
  recentlyMigrated : AList (fun _ : SymbolId => (NodeId × NodeId) × Int) := ∅
  /-- In seconds. -/
  migrationGracePeriod : Int := 30

namespace Router

def new : Router := {}

def addNode (r : Router) (node : NodeId) : Router :=
  if node ∈ r.nodeSet then r
  else
    { r with
      nodeSet := insert node r.nodeSet
      ring := (List.range vnodesPerNode).foldl
        (fun ring i => ring.insert (vnodeHash node i).toNat node) r.ring
      cache := ∅ }

def removeNode (r : Router) (node : NodeId) : Router :=
  if node ∈ r.nodeSet then
    { r with
      nodeSet := r.nodeSet.erase node
      ring := (List.range vnodesPerNode).foldl
        (fun ring i => ring.erase (vnodeHash node i).toNat) r.ring
      cache := ∅ }
  else r

/-- `route(symbol)`: pin, cache, ring; a ring lookup is cached while there is room. -/
def route (r : Router) (symbol : SymbolId) : Except RouterError NodeId × Router :=
  match r.pinned.lookup symbol with
  | some node => (.ok node, r)
  | none =>
    if hne : r.ring.entries = [] then (.error .noNodes, r)
    else
      match r.cache.lookup symbol with
      | some node => (.ok node, r)
      | none =>
        let node := findNode r.ring hne (symbolHash symbol)
        if r.cache.entries.length < maxCacheSize then
          (.ok node, { r with cache := r.cache.insert symbol node })
        else (.ok node, r)

/-- `route(table_id, symbol)`. -/
def routeTable (r : Router) (table : TableId) (symbol : SymbolId) :
    Except RouterError NodeId × Router :=
  if table ≠ 0 then
    match r.tablePlacements.lookup table with
    | some ⟨.pinnedNode, node⟩ =>
      if node = invalidNodeId then (.error .pinnedWithoutNode, r) else (.ok node, r)
    | some ⟨.hashByTable, _⟩ => r.route (tableRouteKey table 0)
    | _ => r.route (tableRouteKey table symbol)
  else r.route (tableRouteKey table symbol)

def setTablePlacement (r : Router) (table : TableId) (policy : TablePlacementPolicy)
    (node : NodeId) : Except RouterError Unit × Router :=
  if table = 0 then (.error .zeroTableId, r)
  else if policy = .pinnedNode ∧ node = invalidNodeId then (.error .pinRequiresNode, r)
  else
    (.ok (), { r with
      tablePlacements := r.tablePlacements.insert table ⟨policy, node⟩, cache := ∅ })

def clearTablePlacement (r : Router) (table : TableId) : Router :=
  { r with tablePlacements := r.tablePlacements.erase table, cache := ∅ }

def pinSymbol (r : Router) (symbol : SymbolId) (node : NodeId) : Router :=
  { r with pinned := r.pinned.insert symbol node, cache := r.cache.erase symbol }

def unpinSymbol (r : Router) (symbol : SymbolId) : Router :=
  { r with pinned := r.pinned.erase symbol, cache := r.cache.erase symbol }

def beginMigration (r : Router) (symbol : SymbolId) (src dst : NodeId) : Router :=
  { r with migrating := r.migrating.insert symbol (src, dst) }

def endMigration (r : Router) (symbol : SymbolId) (now : Int) : Router :=
  match r.migrating.lookup symbol with
  | some nodes =>
    { r with
      recentlyMigrated := r.recentlyMigrated.insert symbol (nodes, now)
      migrating := r.migrating.erase symbol }
  | none => r

def commitMigration (r : Router) (symbol : SymbolId) (owner : NodeId) : Router :=
  { r with
    pinned := r.pinned.insert symbol owner
    migrating := r.migrating.erase symbol
    recentlyMigrated := r.recentlyMigrated.erase symbol
    cache := r.cache.erase symbol }

def abortMigration (r : Router) (symbol : SymbolId) : Router :=
  { r with migrating := r.migrating.erase symbol }

/-- `recently_migrated(symbol)` at time `now`: an entry past its grace period is dropped. -/
def recentNodes (r : Router) (symbol : SymbolId) (now : Int) :
    Option (NodeId × NodeId) × Router :=
  match r.recentlyMigrated.lookup symbol with
  | some (nodes, ended) =>
    if r.migrationGracePeriod * 1000000000 < now - ended then
      (none, { r with recentlyMigrated := r.recentlyMigrated.erase symbol })
    else (some nodes, r)
  | none => (none, r)

def setMigrationGracePeriod (r : Router) (sec : Int) : Router :=
  { r with migrationGracePeriod := sec }

/-- Copy assignment: ring, nodes, pins and placements of `other`, no cache, the own migration
state. -/
def assign (r other : Router) : Router :=
  { r with
    ring := other.ring
    nodeSet := other.nodeSet
    pinned := other.pinned
    tablePlacements := other.tablePlacements
    cache := ∅ }

end Router

end Zepto.Cluster
