import Mathlib.Data.Finset.Sort
import Zepto.Cluster.Fencing
import Zepto.Cluster.Ring
import Zepto.Lib.Bytes
import Zepto.Lib.Grouping
import Zepto.Lib.Loops

/-!
# Ring snapshots

The leader sends its nodes and pins with an epoch as a `RingSnapshot`; a follower decodes it and
makes its own router the same. `deserialize_serialize` says that a snapshot which fits a frame
arrives as it was sent, and `replaceRing_shows` that afterwards the router has the snapshot's nodes
and pins.
-/

namespace Zepto.Cluster

open List Zepto.Lib

structure RingSnapshot where
  epoch : Epoch
  nodes : List NodeId
  pinnedSymbols : List (SymbolId × NodeId)
  deriving DecidableEq

/-- How `deserialize` can fail. -/
inductive DecodeError where
  /-- It returns false. -/
  | tooShort
  /-- It reads past the data: the sizes are added up in 32 bits and have wrapped. -/
  | outOfBounds
  deriving DecidableEq

namespace RingSnapshot

def pinBytes (pin : SymbolId × NodeId) : List Byte :=
  toBytes 4 pin.1.toNat ++ toBytes 4 pin.2.toNat

def serialize (snap : RingSnapshot) : List Byte :=
  toBytes 8 snap.epoch.toNat ++ toBytes 4 snap.nodes.length ++
    snap.nodes.flatMap (fun id => toBytes 4 id.toNat) ++
    toBytes 4 snap.pinnedSymbols.length ++ snap.pinnedSymbols.flatMap pinBytes

def read (data : List Byte) (off n : Nat) : Except DecodeError Nat :=
  match readAt data off n with
  | some v => .ok v
  | none => .error .outOfBounds

/-- `uint32_t` arithmetic. -/
def word32 (n : Nat) : Nat := n % 2 ^ 32

def readNode (data : List Byte) (j : Nat) : Except DecodeError NodeId := do
  return .ofNat 32 (← read data (word32 (12 + j * 4)) 4)

def readPin (data : List Byte) (off j : Nat) : Except DecodeError (SymbolId × NodeId) := do
  let sym ← read data (off + j * 8) 4
  let node ← read data (off + j * 8 + 4) 4
  return (.ofNat 32 sym, .ofNat 32 node)

def deserialize (data : List Byte) : Except DecodeError RingSnapshot := do
  if data.length < 12 then throw .tooShort
  let epoch ← read data 0 8
  let count ← read data 8 4
  if data.length < word32 (12 + count * 4) then throw .tooShort
  let nodes ← (range count).mapM (readNode data)
  let off := word32 (12 + count * 4)
  -- A snapshot without pins, as older versions send it.
  if data.length = off then return ⟨.ofNat 64 epoch, nodes, []⟩
  if data.length < off + 4 then throw .tooShort
  let pinCount ← read data off 4
  let off := off + 4
  if data.length < off + word32 (pinCount * 8) then throw .tooShort
  let pins ← (range pinCount).mapM (readPin data off)
  return ⟨.ofNat 64 epoch, nodes, pins⟩

/-- The snapshot fits a frame, whose length is a `uint32_t`. -/
def Fits (snap : RingSnapshot) : Prop := snap.serialize.length < 2 ^ 32

def PinsDistinct (snap : RingSnapshot) : Prop := (snap.pinnedSymbols.map Prod.fst).Nodup

/-! ## Round trip -/

theorem length_pinBytes (pin : SymbolId × NodeId) : (pinBytes pin).length = 8 := by
  simp [pinBytes]

theorem length_flatMap_const {α : Type*} {f : α → List Byte} {k : Nat} (hf : ∀ a, (f a).length = k)
    (l : List α) : (l.flatMap f).length = l.length * k := by
  induction l with
  | nil => simp
  | cons a l ih =>
    rw [flatMap_cons, length_append, hf, ih, length_cons]
    ring

theorem length_serialize (snap : RingSnapshot) :
    snap.serialize.length = 16 + snap.nodes.length * 4 + snap.pinnedSymbols.length * 8 := by
  simp [serialize, length_flatMap_const length_pinBytes]
  omega

theorem toNat_lt_256 {w n : Nat} (x : BitVec w) (h : 2 ^ w = 256 ^ n) : x.toNat < 256 ^ n :=
  h ▸ x.isLt

variable {snap : RingSnapshot}

theorem read_epoch (snap : RingSnapshot) : read snap.serialize 0 8 = .ok snap.epoch.toNat := by
  have h := readAt_append [] (toBytes 4 snap.nodes.length ++
    (snap.nodes.flatMap (fun id => toBytes 4 id.toNat) ++
    (toBytes 4 snap.pinnedSymbols.length ++ snap.pinnedSymbols.flatMap pinBytes)))
    (toNat_lt_256 (n := 8) snap.epoch (by norm_num))
  simp only [nil_append, length_nil] at h
  simp [read, serialize, h]

theorem read_count (h : snap.Fits) : read snap.serialize 8 4 = .ok snap.nodes.length := by
  have hlen : snap.nodes.length < 256 ^ 4 := by
    have := length_serialize snap
    unfold Fits at h
    omega
  have hread := readAt_append (toBytes 8 snap.epoch.toNat)
    (snap.nodes.flatMap (fun id => toBytes 4 id.toNat) ++
    (toBytes 4 snap.pinnedSymbols.length ++ snap.pinnedSymbols.flatMap pinBytes)) hlen
  rw [length_toBytes] at hread
  simp [read, serialize, hread]

theorem readNode_serialize (h : snap.Fits) {j : Nat} {id : NodeId} (hj : snap.nodes[j]? = some id) :
    readNode snap.serialize j = .ok id := by
  have hlt : j < snap.nodes.length := (List.getElem?_eq_some_iff.mp hj).1
  have hword : word32 (12 + j * 4) = 12 + j * 4 := by
    have := length_serialize snap
    unfold Fits at h
    exact Nat.mod_eq_of_lt (by omega)
  have hread : readAt _ (12 + j * 4) 4 = _ :=
    readAt_block (fun id : NodeId => length_toBytes 4 id.toNat) hj
      (toBytes 8 snap.epoch.toNat ++ toBytes 4 snap.nodes.length)
      (toBytes 4 snap.pinnedSymbols.length ++ snap.pinnedSymbols.flatMap pinBytes) [] [] (by simp)
      (toNat_lt_256 id (by norm_num)) (by simp)
  simp only [append_assoc] at hread
  simp only [readNode, hword, read, serialize, append_assoc, hread]
  simp [bind, Except.bind, pure, Except.pure]

theorem readPin_serialize {j : Nat} {pin : SymbolId × NodeId}
    (hj : snap.pinnedSymbols[j]? = some pin) :
    readPin snap.serialize (16 + snap.nodes.length * 4) j = .ok pin := by
  have hhead : (toBytes 8 snap.epoch.toNat ++ toBytes 4 snap.nodes.length ++
      snap.nodes.flatMap (fun id => toBytes 4 id.toNat) ++
      toBytes 4 snap.pinnedSymbols.length).length = 16 + snap.nodes.length * 4 := by
    simp
    omega
  have hsym : readAt _ (16 + snap.nodes.length * 4 + j * 8) 4 = _ :=
    readAt_block length_pinBytes hj _ [] [] (toBytes 4 pin.2.toNat) rfl
      (toNat_lt_256 pin.1 (by norm_num)) (by rw [hhead]; simp)
  have hnode : readAt _ (16 + snap.nodes.length * 4 + j * 8 + 4) 4 = _ :=
    readAt_block length_pinBytes hj _ [] (toBytes 4 pin.1.toNat) [] (by simp [pinBytes])
      (toNat_lt_256 pin.2 (by norm_num)) (by rw [hhead]; simp)
  rw [append_nil] at hsym hnode
  simp only [readPin, read, serialize, hsym, hnode]
  simp [bind, Except.bind, pure, Except.pure]

theorem read_pinCount (h : snap.Fits) :
    read snap.serialize (12 + snap.nodes.length * 4) 4 = .ok snap.pinnedSymbols.length := by
  have hlen : snap.pinnedSymbols.length < 256 ^ 4 := by
    have := length_serialize snap
    unfold Fits at h
    omega
  have hread := readAt_append (toBytes 8 snap.epoch.toNat ++ toBytes 4 snap.nodes.length ++
    snap.nodes.flatMap (fun id => toBytes 4 id.toNat)) (snap.pinnedSymbols.flatMap pinBytes) hlen
  have hhead : (toBytes 8 snap.epoch.toNat ++ toBytes 4 snap.nodes.length ++
      snap.nodes.flatMap (fun id => toBytes 4 id.toNat)).length = 12 + snap.nodes.length * 4 := by
    simp only [length_append, length_toBytes,
      length_flatMap_const (fun id : NodeId => length_toBytes 4 id.toNat)]
  rw [hhead, ← append_assoc] at hread
  simp only [read, serialize, hread]

/-- A snapshot that fits a frame arrives as it was sent. -/
theorem deserialize_serialize (h : snap.Fits) : deserialize snap.serialize = .ok snap := by
  have hlen := length_serialize snap
  have hfits : snap.serialize.length < 2 ^ 32 := h
  have hnodes : (range snap.nodes.length).mapM (readNode snap.serialize) = .ok snap.nodes :=
    mapM_range fun _ _ hj => readNode_serialize h hj
  have hpins : (range snap.pinnedSymbols.length).mapM
      (readPin snap.serialize (16 + snap.nodes.length * 4)) = .ok snap.pinnedSymbols :=
    mapM_range fun _ _ hj => readPin_serialize hj
  have hoff : word32 (12 + snap.nodes.length * 4) = 12 + snap.nodes.length * 4 :=
    Nat.mod_eq_of_lt (by omega)
  have hsize : word32 (snap.pinnedSymbols.length * 8) = snap.pinnedSymbols.length * 8 :=
    Nat.mod_eq_of_lt (by omega)
  have hoff' : 12 + snap.nodes.length * 4 + 4 = 16 + snap.nodes.length * 4 := by omega
  rw [deserialize]
  simp only [read_epoch, read_count h, hoff, hnodes, read_pinCount h, hsize, hoff', bind,
    Except.bind, pure, Except.pure, hpins, hlen]
  rw [if_neg (by omega), if_neg (by omega), if_neg (by omega)]
  simp

end RingSnapshot

/-- `all_nodes()`, in the order of the `std::set`. -/
def Router.allNodes (r : Router) : List NodeId := r.nodeSet.sort (· ≤ ·)

inductive Proposal where
  | add (node : NodeId)
  | remove (node : NodeId)
  | pin (symbol : SymbolId) (node : NodeId)

structure Leader where
  router : Router
  token : FencingToken

def Leader.change (r : Router) : Proposal → Router
  | .add node => r.addNode node
  | .remove node => r.removeNode node
  | .pin symbol node => r.pinSymbol symbol node

/-! ## The follower's router -/

namespace Router

variable {r : Router} {snap : RingSnapshot}

/-- The second half of `apply_update`, under the router's lock. -/
def replaceRing (r : Router) (snap : RingSnapshot) : Router :=
  let r := r.allNodes.foldl (fun r id => if id ∈ snap.nodes then r else r.removeNode id) r
  let r := snap.nodes.foldl addNode r
  let r := r.pinned.entries.foldl
    (fun r pin => if (pin.1, pin.2) ∈ snap.pinnedSymbols then r else r.unpinSymbol pin.1) r
  snap.pinnedSymbols.foldl (fun r pin => r.pinSymbol pin.1 pin.2) r

def Shows (r : Router) (snap : RingSnapshot) : Prop :=
  r.nodeSet = snap.nodes.toFinset ∧
  ∀ s x, r.pinned.lookup s = some x ↔ (s, x) ∈ snap.pinnedSymbols

theorem removeOthers_spec (keep l : List NodeId) (r : Router) :
    (l.foldl (fun r id => if id ∈ keep then r else r.removeNode id) r).nodeSet =
      r.nodeSet.filter (fun x => x ∈ l → x ∈ keep) ∧
    (l.foldl (fun r id => if id ∈ keep then r else r.removeNode id) r).pinned = r.pinned := by
  induction l generalizing r with
  | nil => simp
  | cons id l ih =>
    rw [foldl_cons]
    obtain ⟨hset, hpins⟩ := ih (if id ∈ keep then r else r.removeNode id)
    rw [hset, hpins]
    split
    · refine ⟨Finset.filter_congr fun x _ => ?_, rfl⟩
      rw [mem_cons, or_imp, and_iff_right]
      rintro rfl
      assumption
    rename_i hid
    refine ⟨?_, removeNode_pinned r id⟩
    ext x
    rw [removeNode_nodeSet, Finset.mem_filter, Finset.mem_filter, Finset.mem_erase, mem_cons]
    constructor
    · rintro ⟨⟨hne, hx⟩, hkeep⟩
      exact ⟨hx, fun hor => hkeep (hor.resolve_left hne)⟩
    · rintro ⟨hx, hkeep⟩
      exact ⟨⟨fun heq => hid (heq ▸ hkeep (.inl heq)), hx⟩, fun hl => hkeep (.inr hl)⟩

theorem addNodes_spec (l : List NodeId) (r : Router) :
    (l.foldl addNode r).nodeSet = r.nodeSet ∪ l.toFinset ∧
    (l.foldl addNode r).pinned = r.pinned := by
  induction l generalizing r with
  | nil => simp
  | cons id l ih =>
    rw [foldl_cons]
    obtain ⟨hset, hpins⟩ := ih (r.addNode id)
    rw [hset, hpins, addNode_nodeSet, addNode_pinned]
    simp

theorem unpinOthers_spec (keep : List (SymbolId × NodeId)) (l : List (Σ _ : SymbolId, NodeId))
    (r : Router) (s : SymbolId) :
    (l.foldl (fun r pin => if (pin.1, pin.2) ∈ keep then r else r.unpinSymbol pin.1) r).nodeSet =
      r.nodeSet ∧
    (l.foldl (fun r pin => if (pin.1, pin.2) ∈ keep then r else r.unpinSymbol pin.1)
      r).pinned.lookup s =
      if ∃ x, ⟨s, x⟩ ∈ l ∧ (s, x) ∉ keep then none else r.pinned.lookup s := by
  induction l generalizing r with
  | nil => simp
  | cons pin l ih =>
    obtain ⟨t, y⟩ := pin
    rw [foldl_cons]
    obtain ⟨hset, hpins⟩ := ih (if (t, y) ∈ keep then r else r.unpinSymbol t)
    rw [hset, hpins]
    by_cases hkeep : (t, y) ∈ keep
    · rw [if_pos hkeep]
      refine ⟨rfl, if_congr ?_ rfl rfl⟩
      refine exists_congr fun x => and_congr_left fun hx => ?_
      rw [mem_cons, or_iff_right]
      rintro heq
      cases heq
      exact hx hkeep
    · rw [if_neg hkeep]
      refine ⟨rfl, ?_⟩
      by_cases hs : s = t
      · subst hs
        have hgone : ∃ x, (⟨s, x⟩ : Σ _ : SymbolId, NodeId) ∈ ⟨s, y⟩ :: l ∧ (s, x) ∉ keep :=
          ⟨y, mem_cons_self, hkeep⟩
        split
        · rfl
        · exact AList.lookup_erase _ _
      · have hlook : (r.unpinSymbol t).pinned.lookup s = r.pinned.lookup s :=
          AList.lookup_erase_ne hs
        rw [hlook]
        refine if_congr (exists_congr fun x => and_congr_left fun _ => ?_) rfl rfl
        rw [mem_cons, or_iff_right]
        rintro heq
        cases heq
        exact hs rfl

theorem pinAll_nodeSet (l : List (SymbolId × NodeId)) (r : Router) :
    (l.foldl (fun r pin => r.pinSymbol pin.1 pin.2) r).nodeSet = r.nodeSet := by
  induction l generalizing r with
  | nil => rfl
  | cons pin l ih => exact ih _

theorem replaceRing_shows (r : Router) (h : snap.PinsDistinct) :
    (r.replaceRing snap).Shows snap := by
  obtain ⟨hkept, hpins1⟩ := removeOthers_spec snap.nodes r.allNodes r
  obtain ⟨hadded, hpins2⟩ := addNodes_spec snap.nodes
    (r.allNodes.foldl (fun r id => if id ∈ snap.nodes then r else r.removeNode id) r)
  rw [hpins1] at hpins2
  have hunpinned := unpinOthers_spec snap.pinnedSymbols r.pinned.entries (snap.nodes.foldl addNode
      (r.allNodes.foldl (fun r id => if id ∈ snap.nodes then r else r.removeNode id) r))
  simp only [replaceRing, hpins2]
  refine ⟨?_, fun s x => ?_⟩
  · rw [pinAll_nodeSet, (hunpinned 0).1, hadded, hkept]
    ext x
    simp only [Finset.mem_union, Finset.mem_filter, allNodes, Finset.mem_sort, mem_toFinset]
    tauto
  rw [lookup_foldl_insert h pinned fun _ _ => rfl, (hunpinned s).2, hpins2, or_iff_left]
  · simp
  -- A pin that is left over would have been taken away.
  rintro ⟨hs, hlook⟩
  split at hlook
  · cases hlook
  next hall =>
    refine hall ⟨x, AList.mem_lookup_iff.mp hlook, fun hmem => hs ?_⟩
    exact mem_map_of_mem (f := Prod.fst) hmem

end Router

end Zepto.Cluster
