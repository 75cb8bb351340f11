import Zepto.Lib.Loops
import Zepto.Lib.Rows
import Zepto.Sql.Aggregate

/-!
# Groups are folds

Each path of a `GROUP BY` keeps the states that folding the rows of every key gives (`rowGroups`).
On the path by one key the states are in an array of slots: as long as there are slots, each key
has its own, and the cached slot is that of the last key (`SlotGroups.Holds`).
-/

namespace Zepto.Sql

open List Zepto.Lib Zepto.Storage

variable {Q : Type}

/-! ## The rows of a scan -/

def rowAcc (loop : GroupLoop) (stmt : SelectStmt Q) :
    Accumulator (List GroupState) (List GroupInput) :=
  ⟨newStates stmt, stepStates loop stmt⟩

/-- What a row gives the items; nothing where an item throws. -/
def inputsAt (env : Env) (loop : GroupLoop) (stmt : SelectStmt Q) (r : Partition × Nat) :
    List GroupInput :=
  match groupInputs env loop stmt r.1 r.2 with
  | .ok xs => xs
  | .error _ => []

def InputsOk (env : Env) (loop : GroupLoop) (stmt : SelectStmt Q) (r : Partition × Nat) : Prop :=
  ∃ xs, groupInputs env loop stmt r.1 r.2 = .ok xs

def rowGroups {κ : Type} [DecidableEq κ] (env : Env) (loop : GroupLoop) (stmt : SelectStmt Q)
    (key : Partition × Nat → κ) (rows : List (Partition × Nat)) : Groups κ :=
  groupFold (rowAcc loop stmt) (rows.map fun r => (key r, inputsAt env loop stmt r))

section

variable {loop : GroupLoop} {stmt : SelectStmt Q} {κ : Type} [DecidableEq κ]

theorem InputsOk.eq {env : Env} {r : Partition × Nat} (h : InputsOk env loop stmt r) :
    groupInputs env loop stmt r.1 r.2 = .ok (inputsAt env loop stmt r) := by
  obtain ⟨xs, hxs⟩ := h
  simp [inputsAt, hxs]

theorem InputsOk.length {env : Env} {r : Partition × Nat} (h : InputsOk env loop stmt r) :
    (inputsAt env loop stmt r).length = stmt.columns.length :=
  length_mapM h.eq

theorem foldl_groupStep (env : Env) (loop : GroupLoop) (stmt : SelectStmt Q)
    (key : Partition × Nat → κ) (rows : List (Partition × Nat)) :
    rows.foldl (fun g r => groupStep (rowAcc loop stmt) g (key r, inputsAt env loop stmt r)) ∅ =
      rowGroups env loop stmt key rows := by
  rw [rowGroups, groupFold, foldl_map]

theorem rowGroups_append (env : Env) (key : Partition × Nat → κ) (l : List (Partition × Nat))
    (r : Partition × Nat) : rowGroups env loop stmt key (l ++ [r]) = groupStep (rowAcc loop stmt)
      (rowGroups env loop stmt key l) (key r, inputsAt env loop stmt r) := by
  simp [rowGroups, groupFold]

theorem keys_rowGroups (env : Env) (loop : GroupLoop) (stmt : SelectStmt Q)
    (key : Partition × Nat → κ) (rows : List (Partition × Nat)) :
    (rowGroups env loop stmt key rows).keys.Perm (rows.map key).dedup := by
  refine (perm_ext_iff_of_nodup (AList.keys_nodup _) (nodup_dedup _)).mpr fun k => ?_
  change k ∈ rowGroups env loop stmt key rows ↔ _
  rw [← AList.lookup_isSome, rowGroups, lookup_groupFold, advance]
  simp only [valuesOf, filter_map]
  split <;> simp_all

theorem lookup_touchGroup (g : Groups κ) (k k' : κ) : (touchGroup stmt g k).lookup k' =
      if k' = k then some ((g.lookup k).getD (newStates stmt)) else g.lookup k' := by
  unfold touchGroup
  by_cases hk : k' = k
  · subst hk
    split
    next h =>
      obtain ⟨states, hs⟩ := Option.isSome_iff_exists.mp h
      simp [hs]
    next h =>
      simp [Option.not_isSome_iff_eq_none.mp h]
  · split
    · rfl
    · rw [AList.lookup_insert_ne hk]

theorem updateGroup_touchGroup (loop : GroupLoop) (stmt : SelectStmt Q) (g : Groups κ) (k : κ)
    (xs : List GroupInput) :
    updateGroup loop stmt (touchGroup stmt g k) k xs = groupStep (rowAcc loop stmt) g (k, xs) := by
  unfold updateGroup touchGroup groupStep
  cases h : g.lookup k with
  | none =>
    simp
    rfl
  | some states =>
    simp only [Option.isSome_some, if_true, h]
    rfl

theorem updateGroup_of_isSome {g : Groups κ} {k : κ} {xs : List GroupInput}
    (h : (g.lookup k).isSome) :
    updateGroup loop stmt g k xs = groupStep (rowAcc loop stmt) g (k, xs) := by
  rw [← updateGroup_touchGroup, touchGroup, if_pos h]

end

section

variable {env : Env} {stmt : SelectStmt Q} {parts : List Partition}
  {rows : Partition → Except String (List Nat × Nat)} {sel : Partition → List Nat}

variable {loop : GroupLoop} {xs : List GroupInput} {keyOf : Partition → Nat → Int} {k : Int}

theorem groupByMulti_eq {keyOf : Partition → Nat → List Int}
    (hrows : ∀ p ∈ parts, ∃ n, rows p = .ok (sel p, n))
    (hin : ∀ r ∈ tagged parts sel, InputsOk env loop stmt r) :
    ∃ n, parts.foldlM (groupByMulti env loop stmt keyOf rows) (∅, 0) =
      .ok (rowGroups env loop stmt (fun r => keyOf r.1 r.2) (tagged parts sel), n) := by
  rw [← foldl_groupStep, ← foldl_tagged sel fun p g i =>
    groupStep (rowAcc loop stmt) g (keyOf p i, inputsAt env loop stmt (p, i))]
  refine foldlM_counted (fun acc p hp => ?_) (∅, 0)
  obtain ⟨n, hn⟩ := hrows p hp
  refine ⟨acc.2 + n, loop_rows hn (fun g i hi => ?_) acc.1 acc.2⟩
  have heq := (hin (p, i) (mem_tagged.mpr ⟨hp, hi⟩)).eq
  rw [heq, ← updateGroup_touchGroup]
  rfl

/-! ### The path by one key -/

namespace SlotGroups

variable {c : SlotGroups} {bs : List (List GroupState)} {key : Int} {slot : UInt32}

/-- The array holds one block of states for each slot, and the slots are given out in order. -/
structure Slotted (stmt : SelectStmt Q) (c : SlotGroups) (bs : List (List GroupState)) : Prop where
  flat : c.flatStates = bs.flatten
  width : ∀ b ∈ bs, b.length = stmt.columns.length
  slots : c.keyToSlot.entries.map Sigma.snd = (range bs.length).reverse.map UInt32.ofNat
  next : c.nextSlot = UInt32.ofNat bs.length
  room : bs.length ≤ 2 ^ 32

/-- The key at hand has its slot. -/
def Warm (c : SlotGroups) : Prop := c.keyToSlot.lookup c.cachedKey = some c.cachedSlot

section

variable (h : c.Slotted stmt bs)

include h

theorem Slotted.statesAt (slot : UInt32) : c.statesAt stmt slot = bs.getD slot.toNat [] := by
  rw [SlotGroups.statesAt, h.flat, ← flatMap_id, getD_eq_getElem?_getD]
  cases hb : bs[slot.toNat]? with
  | none =>
    have hle := Nat.mul_le_mul_right stmt.columns.length (getElem?_eq_none_iff.mp hb)
    rw [drop_eq_nil_of_le ((length_flatMap_rows (f := id) h.width).trans_le hle)]
    exact take_nil
  | some b => exact rowAt_flatMap (f := id) h.width hb

theorem Slotted.lt (hslot : c.keyToSlot.lookup key = some slot) : slot.toNat < bs.length := by
  have hmem : slot ∈ c.keyToSlot.entries.map Sigma.snd :=
    mem_map.mpr ⟨⟨key, slot⟩, AList.mem_lookup_iff.mp hslot, rfl⟩
  rw [h.slots] at hmem
  obtain ⟨i, hi, rfl⟩ := mem_map.mp hmem
  have hi : i < bs.length := by simpa using hi
  exact (Nat.mod_le _ _).trans_lt hi

/-- No two keys share a slot. -/
theorem Slotted.inj {key' : Int} (hslot : c.keyToSlot.lookup key = some slot)
    (hslot' : c.keyToSlot.lookup key' = some slot) : key = key' := by
  have hnodup : (c.keyToSlot.entries.map Sigma.snd).Nodup := by
    rw [h.slots]
    refine (nodup_reverse.mpr nodup_range).map_on fun i hi j hj hij => ?_
    have hroom := h.room
    have hi : i < bs.length := by simpa using hi
    have hj : j < bs.length := by simpa using hj
    have hnat := congrArg UInt32.toNat hij
    rw [UInt32.toNat_ofNat', UInt32.toNat_ofNat', Nat.mod_eq_of_lt (by omega),
      Nat.mod_eq_of_lt (by omega)] at hnat
    exact hnat
  have heq := inj_on_of_nodup_map hnodup (AList.mem_lookup_iff.mp hslot)
    (AList.mem_lookup_iff.mp hslot') rfl
  exact congrArg Sigma.fst heq

end

/-- The groups are the given ones. -/
def Holds (stmt : SelectStmt Q) (c : SlotGroups) (g : Groups Int) : Prop :=
  ∀ k, (c.groups stmt).lookup k = g.lookup k

theorem lookup_groups (k : Int) :
    (c.groups stmt).lookup k = (c.keyToSlot.lookup k).map (c.statesAt stmt) :=
  dlookup_map₂ (f := fun _ => c.statesAt stmt) k

/-- After the search the key at hand is the row's and has a slot; a new key has new states. -/
theorem find_spec (h : c.Slotted stmt bs) (hc : c.Warm ∨ key ≠ c.cachedKey)
    (hroom : c.keyToSlot.lookup key = none → bs.length < 2 ^ 32) :
    ∃ bs', (c.find stmt key).Slotted stmt bs' ∧
      (c.find stmt key).keyToSlot.lookup key = some (c.find stmt key).cachedSlot ∧
      (c.find stmt key).cachedKey = key ∧
      (c.find stmt key).Holds stmt (touchGroup stmt (c.groups stmt) key) := by
  unfold find
  split
  next hkey =>
    subst hkey
    have hwarm : c.keyToSlot.lookup c.cachedKey = some c.cachedSlot :=
      hc.resolve_right fun hne => hne rfl
    refine ⟨bs, h, hwarm, rfl, fun k => ?_⟩
    rw [touchGroup, if_pos (by rw [lookup_groups, hwarm]; rfl)]
  split
  next slot hslot =>
    refine ⟨bs, ⟨h.1, h.2, h.3, h.4, h.5⟩, hslot, rfl, fun k => ?_⟩
    rw [touchGroup, if_pos (by rw [lookup_groups, hslot]; rfl)]
    rfl
  next hnone =>
    have hlt := hroom hnone
    have hnew : ∀ b ∈ bs ++ [newStates stmt], b.length = stmt.columns.length :=
      forall_mem_append.mpr ⟨h.width, by simp [newStates]⟩
    have hslotted : Slotted stmt
        { keyToSlot := c.keyToSlot.insert key c.nextSlot
          flatStates := c.flatStates ++ newStates stmt
          nextSlot := c.nextSlot + 1
          cachedKey := key
          cachedSlot := c.nextSlot } (bs ++ [newStates stmt]) := by
      refine ⟨by simp [h.flat], hnew, ?_, ?_, by rwa [length_append]⟩
      · rw [AList.entries_insert_of_notMem (AList.lookup_eq_none.mp hnone), map_cons, h.slots,
          length_append, length_singleton, range_succ, reverse_append, map_append, h.next]
        rfl
      · rw [h.next, length_append, length_singleton, UInt32.ofNat_add]
        rfl
    refine ⟨_, hslotted, AList.lookup_insert _, rfl, fun k => ?_⟩
    rw [lookup_groups, touchGroup, if_neg (by rw [lookup_groups, hnone]; simp)]
    by_cases hk : k = key
    · subst hk
      rw [AList.lookup_insert, AList.lookup_insert, Option.map_some, hslotted.statesAt, h.next,
        UInt32.toNat_ofNat', Nat.mod_eq_of_lt hlt]
      simp
    · rw [AList.lookup_insert_ne hk, AList.lookup_insert_ne hk, lookup_groups]
      refine Option.map_congr fun slot hslot => ?_
      rw [hslotted.statesAt, h.statesAt, getD_eq_getElem?_getD, getD_eq_getElem?_getD,
        getElem?_append_left (h.lt hslot)]

theorem length_stepStates {states : List GroupState} (hs : states.length = stmt.columns.length)
    (hxs : xs.length = stmt.columns.length) :
    (stepStates loop stmt states xs).length = stmt.columns.length := by
  rw [stepStates]
  generalize stmt.columns = cols at hs hxs
  induction cols generalizing states xs with
  | nil => rfl
  | cons col cols ih =>
    match states, xs, hs, hxs with
    | s :: states, x :: xs, hs, hxs =>
      simpa [zipThree] using ih (Nat.succ.inj hs) (Nat.succ.inj hxs)

/-- A row moves the states of its key and of no other one. -/
theorem step_spec (loop : GroupLoop) {g : Groups Int} (h : c.Slotted stmt bs) (hg : c.Holds stmt g)
    (hc : c.Warm ∨ key ≠ c.cachedKey) (hroom : c.keyToSlot.lookup key = none → bs.length < 2 ^ 32)
    (hxs : xs.length = stmt.columns.length) :
    ∃ bs', (c.step loop stmt key xs).Slotted stmt bs' ∧ (c.step loop stmt key xs).Warm ∧
      (c.step loop stmt key xs).Holds stmt (groupStep (rowAcc loop stmt) g (key, xs)) := by
  obtain ⟨bs', h', hslot, hkey, hheld⟩ := find_spec h hc hroom
  unfold step
  generalize c.find stmt key = c' at h' hslot hkey hheld
  have hlt := h'.lt hslot
  have hblock : (bs'.getD c'.cachedSlot.toNat []).length = stmt.columns.length := by
    rw [getD_eq_getElem?_getD, getElem?_eq_getElem hlt, Option.getD_some]
    exact h'.width _ (getElem_mem hlt)
  have hnew : (stepStates loop stmt (bs'.getD c'.cachedSlot.toNat []) xs).length =
      stmt.columns.length := length_stepStates hblock hxs
  have hslotted : Slotted stmt { c' with
      flatStates := c'.flatStates.take (c'.cachedSlot.toNat * stmt.columns.length) ++
        stepStates loop stmt (c'.statesAt stmt c'.cachedSlot) xs ++
        c'.flatStates.drop (c'.cachedSlot.toNat * stmt.columns.length + stmt.columns.length) }
      (bs'.set c'.cachedSlot.toNat
        (stepStates loop stmt (bs'.getD c'.cachedSlot.toNat []) xs)) := by
    refine ⟨?_, fun b hb => ?_, ?_, ?_, ?_⟩
    · have hwrite := writeAt_flatMap (f := id) (a := stepStates ..) h'.width hlt hnew
      rw [writeAt, id, hnew, flatMap_id, flatMap_id, ← append_assoc, ← h'.flat] at hwrite
      rwa [h'.statesAt]
    · rcases mem_or_eq_of_mem_set hb with hb | rfl
      · exact h'.width b hb
      · exact hnew
    · rw [length_set]
      exact h'.slots
    · rw [length_set]
      exact h'.next
    · rw [length_set]
      exact h'.room
  refine ⟨_, hslotted, ?_, fun k => ?_⟩
  · change c'.keyToSlot.lookup c'.cachedKey = some c'.cachedSlot
    rwa [hkey]
  have htouch : (c'.groups stmt).lookup k = (touchGroup stmt g key).lookup k := by
    rw [hheld, lookup_touchGroup, lookup_touchGroup, hg, hg]
  rw [← updateGroup_touchGroup, lookup_groups]
  have hold : (touchGroup stmt g key).lookup key = some (bs'.getD c'.cachedSlot.toNat []) := by
    rw [lookup_touchGroup, ← hg, ← lookup_touchGroup, ← hheld, lookup_groups, hslot,
      Option.map_some, h'.statesAt]
  rw [updateGroup, hold]
  by_cases hk : k = key
  · subst hk
    rw [AList.lookup_insert, hslot, Option.map_some, hslotted.statesAt, getD_eq_getElem?_getD,
      getElem?_set_self hlt, Option.getD_some]
  · rw [AList.lookup_insert_ne hk, ← htouch, lookup_groups]
    refine Option.map_congr fun slot hk' => ?_
    have hne : c'.cachedSlot.toNat ≠ slot.toNat := fun heq => by
      have heq := UInt32.toNat_inj.mp heq
      exact hk (h'.inj hk' (heq ▸ hslot))
    rw [hslotted.statesAt, h'.statesAt, getD_eq_getElem?_getD, getElem?_set_ne hne,
      getD_eq_getElem?_getD]

section

variable {K : List Int}

theorem Slotted.lt_of_new {g : Groups Int} (h : c.Slotted stmt bs) (hg : c.Holds stmt g)
    (hK : K.dedup.length ≤ 2 ^ 32) (hkeys : ∀ k ∈ g, k ∈ K) (hkey : key ∈ K)
    (hnew : c.keyToSlot.lookup key = none) : bs.length < 2 ^ 32 := by
  have hlength : c.keyToSlot.keys.length = bs.length := by
    have := congrArg length h.slots
    simpa [AList.keys, keys] using this
  have hsub : key :: c.keyToSlot.keys ⊆ K.dedup := by
    intro k hk
    rw [mem_dedup]
    rcases mem_cons.mp hk with rfl | hk
    · exact hkey
    · refine hkeys k (AList.lookup_isSome.mp ?_)
      rw [← hg, lookup_groups, Option.isSome_map]
      exact AList.lookup_isSome.mpr hk
  have hnodup : (key :: c.keyToSlot.keys).Nodup :=
    nodup_cons.mpr ⟨AList.lookup_eq_none.mp hnew, c.keyToSlot.keys_nodup⟩
  have hle := (hnodup.subperm hsub).length_le
  rw [length_cons, hlength] at hle
  omega

/-- As long as there are slots for all keys, a scan folds the rows of each key. -/
theorem Slotted.foldl_step {rows : List (Int × List GroupInput)} {g : Groups Int}
    (h : c.Slotted stmt bs) (hg : c.Holds stmt g) (hK : K.dedup.length ≤ 2 ^ 32)
    (hkeys : ∀ k ∈ g, k ∈ K) (hc : c.Warm ∨ ∀ r ∈ rows.head?, r.1 ≠ c.cachedKey)
    (hrows : ∀ r ∈ rows, r.1 ∈ K ∧ r.2.length = stmt.columns.length) :
    (rows.foldl (fun c r => c.step loop stmt r.1 r.2) c).Holds stmt
      (rows.foldl (groupStep (rowAcc loop stmt)) g) := by
  induction rows generalizing c bs g with
  | nil => exact hg
  | cons r rows ih =>
    obtain ⟨⟨hkey, hxs⟩, hrows⟩ := forall_mem_cons.mp hrows
    obtain ⟨bs', h', hwarm, hg'⟩ := step_spec loop h hg
      (hc.imp_right fun hne => hne r rfl) (h.lt_of_new hg hK hkeys hkey) hxs
    refine ih h' hg' (fun k hk => ?_) (.inl hwarm) hrows
    rcases (AList.mem_insert _).mp hk with rfl | hk
    · exact hkey
    · exact hkeys k hk

end

/-- The first rows of key `INT64_MIN` leave no trace. -/
theorem foldl_step_dropWhile (rows : List (Int × List GroupInput)) :
    rows.foldl (fun c r => step loop stmt c r.1 r.2) {} =
      (rows.dropWhile fun r => r.1 = int64Min).foldl (fun c r => step loop stmt c r.1 r.2) {} := by
  induction rows with
  | nil => rfl
  | cons r rows ih =>
    by_cases hr : r.1 = int64Min
    · have hlost : step loop stmt {} r.1 r.2 = {} := by
        cases hcols : stmt.columns <;> simp [step, find, statesAt, stepStates, zipThree, hr, hcols]
      rw [dropWhile_cons_of_pos (by simpa using hr), foldl_cons, hlost, ih]
    · rw [dropWhile_cons_of_neg (by simpa using hr)]

end SlotGroups

theorem groupBySingle_eq (hrows : ∀ p ∈ parts, ∃ n, rows p = .ok (sel p, n))
    (hin : ∀ r ∈ tagged parts sel, InputsOk env singleLoop stmt r) (keyOf : Partition → Nat → Int)
    (hslots : ((tagged parts sel).map fun r => keyOf r.1 r.2).dedup.length ≤ 2 ^ 32) :
    ∃ c n, parts.foldlM (groupBySingle env stmt keyOf rows) ({}, 0) = .ok (c, n) ∧
      c.Holds stmt (rowGroups env singleLoop stmt (fun r => keyOf r.1 r.2)
        ((tagged parts sel).dropWhile fun r => keyOf r.1 r.2 = int64Min)) := by
  have hscan : ∃ n, parts.foldlM (groupBySingle env stmt keyOf rows) ({}, 0) =
      .ok (((tagged parts sel).map fun r => (keyOf r.1 r.2, inputsAt env singleLoop stmt r)).foldl
        (fun c r => c.step singleLoop stmt r.1 r.2) {}, n) := by
    rw [foldl_map, ← foldl_tagged sel fun p c i =>
      SlotGroups.step singleLoop stmt c (keyOf p i) (inputsAt env singleLoop stmt (p, i))]
    refine foldlM_counted (fun acc p hp => ?_) (({}, 0) : SlotGroups × Nat)
    obtain ⟨n, hn⟩ := hrows p hp
    refine ⟨acc.2 + n, loop_rows hn (fun c i hi => ?_) acc.1 acc.2⟩
    have heq := (hin (p, i) (mem_tagged.mpr ⟨hp, hi⟩)).eq
    rw [heq]
    rfl
  obtain ⟨n, hn⟩ := hscan
  refine ⟨_, n, hn, ?_⟩
  rw [SlotGroups.foldl_step_dropWhile, dropWhile_map]
  have hstart : ({} : SlotGroups).Slotted stmt [] := ⟨rfl, nofun, rfl, rfl, by simp⟩
  refine hstart.foldl_step (g := ∅) (fun _ => rfl) hslots nofun (.inr fun r hr => ?_)
    fun r hr => ?_
  · have hne := head?_dropWhile_not (fun r => decide (keyOf r.1 r.2 = int64Min)) (tagged parts sel)
    rw [head?_map, Option.mem_map] at hr
    obtain ⟨r', hr', rfl⟩ := hr
    have hr' : (dropWhile (fun r => decide (keyOf r.1 r.2 = int64Min)) (tagged parts sel)).head? =
      some r' := hr'
    rw [hr'] at hne
    simpa using hne
  · obtain ⟨r', hr', rfl⟩ := mem_map.mp hr
    have hr' := (dropWhile_sublist _).subset hr'
    exact ⟨mem_map_of_mem (f := fun r => keyOf r.1 r.2) hr', (hin r' hr').length⟩

/-! ### The path by symbol -/

def symbolStep (env : Env) (stmt : SelectStmt Q) (sel : Partition → List Nat) (g : Groups Int)
    (p : Partition) : Groups Int :=
  ((sel p).map fun i => (p.symbolValue, inputsAt env symbolLoop stmt (p, i))).foldl
    (groupStep (rowAcc symbolLoop stmt)) (touchGroup stmt g p.symbolValue)

theorem foldl_updateGroup {f : Nat → List GroupInput} {l : List Nat} {g : Groups Int}
    (h : (g.lookup k).isSome) : l.foldl (fun g i => updateGroup loop stmt g k (f i)) g =
      (l.map fun i => (k, f i)).foldl (groupStep (rowAcc loop stmt)) g := by
  induction l generalizing g with
  | nil => rfl
  | cons i l ih =>
    rw [foldl_cons, updateGroup_of_isSome h]
    exact ih (by simp [groupStep])

theorem groupBySymbol_eq (hrows : ∀ p ∈ parts, ∃ n, sampledRows env stmt p = .ok (sel p, n))
    (hin : ∀ r ∈ tagged parts sel, InputsOk env symbolLoop stmt r) :
    ∃ n, parts.foldlM (groupBySymbol env stmt) (∅, 0) =
      .ok (parts.foldl (symbolStep env stmt sel) ∅, n) := by
  refine foldlM_counted (fun acc p hp => ?_) (∅, 0)
  obtain ⟨n, hn⟩ := hrows p hp
  refine ⟨acc.2 + n, ?_⟩
  have htouched : ((touchGroup stmt acc.1 p.symbolValue).lookup p.symbolValue).isSome := by
    rw [lookup_touchGroup, if_pos rfl]
    rfl
  rw [symbolStep, ← foldl_updateGroup htouched]
  refine loop_rows hn (fun g i hi => ?_) _ acc.2
  have heq := (hin (p, i) (mem_tagged.mpr ⟨hp, hi⟩)).eq
  rw [heq]
  rfl

def SymbolsSelected (parts : List Partition) (sel : Partition → List Nat) : Prop :=
  ∀ p ∈ parts, ∃ r ∈ tagged parts sel, r.1.symbolValue = p.symbolValue

def symbolRows (env : Env) (stmt : SelectStmt Q) (rows : List (Partition × Nat)) :
    List (Int × List GroupInput) :=
  rows.map fun r => (r.1.symbolValue, inputsAt env symbolLoop stmt r)

theorem symbolRows_tagged_cons (p : Partition) (ps : List Partition) :
    symbolRows env stmt (tagged (p :: ps) sel) =
      ((sel p).map fun i => (p.symbolValue, inputsAt env symbolLoop stmt (p, i))) ++
        symbolRows env stmt (tagged ps sel) := by
  simp [symbolRows]

theorem valuesOf_eq_nil {rows : List (Int × List GroupInput)} (h : ∀ r ∈ rows, r.1 ≠ k) :
    valuesOf k rows = [] := by
  rw [valuesOf, map_eq_nil_iff, filter_eq_nil_iff]
  intro r hr
  simp [h r hr]

theorem valuesOf_symbolRows_eq_nil {ps : List Partition} (h : k ∉ ps.map Partition.symbolValue) :
    valuesOf k (symbolRows env stmt (tagged ps sel)) = [] := by
  apply valuesOf_eq_nil
  intro r hr hk
  obtain ⟨⟨p, i⟩, hp, rfl⟩ := mem_map.mp hr
  exact h (mem_map.mpr ⟨p, (mem_tagged.mp hp).1, hk⟩)

theorem lookup_foldl_symbolStep (k : Int) (ps : List Partition) (g : Groups Int) :
    (ps.foldl (symbolStep env stmt sel) g).lookup k = if k ∈ ps.map Partition.symbolValue then
        some ((valuesOf k (symbolRows env stmt (tagged ps sel))).foldl (stepStates symbolLoop stmt)
          ((g.lookup k).getD (newStates stmt)))
      else g.lookup k := by
  induction ps generalizing g with
  | nil => rfl
  | cons p ps ih =>
    rw [foldl_cons, ih, symbolRows_tagged_cons, valuesOf_append, foldl_append,
      symbolStep, lookup_foldl_groupStep, lookup_touchGroup]
    by_cases hk : k = p.symbolValue
    · subst hk
      have hadv (s : List GroupState) (xs : List (List GroupInput)) :
          advance (rowAcc symbolLoop stmt) (some s) xs =
            some (xs.foldl (stepStates symbolLoop stmt) s) := by
        cases xs <;> rfl
      rw [if_pos rfl, hadv, if_pos (mem_map_of_mem mem_cons_self)]
      split
      · rfl
      next hnot =>
        rw [valuesOf_symbolRows_eq_nil hnot]
        rfl
    · have hnil : valuesOf k ((sel p).map fun i =>
          (p.symbolValue, inputsAt env symbolLoop stmt (p, i))) = [] := by
        apply valuesOf_eq_nil
        intro r hr
        obtain ⟨i, -, rfl⟩ := mem_map.mp hr
        exact fun h => hk h.symm
      rw [hnil]
      simp only [map_cons, mem_cons, hk, false_or]
      rfl

/-- The path by symbol has the states over the rows, once every symbol has a row. -/
theorem lookup_symbolGroups (hsym : SymbolsSelected parts sel) (k : Int) :
    (parts.foldl (symbolStep env stmt sel) ∅).lookup k =
      (rowGroups env symbolLoop stmt (fun r => r.1.symbolValue) (tagged parts sel)).lookup k := by
  rw [lookup_foldl_symbolStep, rowGroups, lookup_groupFold]
  change _ = advance _ none (valuesOf k (symbolRows env stmt (tagged parts sel)))
  split_ifs with hk
  · obtain ⟨p, hp, rfl⟩ := mem_map.mp hk
    obtain ⟨r, hr, hrk⟩ := hsym p hp
    have hmem : inputsAt env symbolLoop stmt r ∈
        valuesOf p.symbolValue (symbolRows env stmt (tagged parts sel)) := by
      refine mem_map.mpr ⟨_, mem_filter.mpr ⟨mem_map.mpr ⟨r, hr, rfl⟩, ?_⟩, rfl⟩
      simpa using hrk
    rw [advance, if_neg (by simpa using ne_nil_of_mem hmem)]
    rfl
  · rw [valuesOf_symbolRows_eq_nil hk]
    rfl

end

end Zepto.Sql
