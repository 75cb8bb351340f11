import Zepto.Storage.RowContents

/-!
# Storing several ticks

`store_tick` answers nothing, so what a list of ticks leaves behind depends on the room that each of
them finds. If all are taken, the partitions hold them behind what they held (`contents_of_taken`);
if all are refused, nothing but empty columns has come in (`rowsKept_of_refused`). The number of
cells stored tells the two cases from the rest.
-/

namespace Zepto.Storage

open List Zepto.Lib ColumnContents Zepto.Storage.Partition

/-! ## Cells -/

section

variable {cs cs' : List ColumnContents} {done : List (String × Nat × Nat)} {msg : TickMessage}

def cellCount (cs : List ColumnContents) : Nat := (cs.map fun k => k.rows.length).sum

def timesOf : List ColumnContents → List Nat
  | [] => []
  | k :: _ => k.rows

theorem cellCount_pushNamed {cell : String × Nat × Nat}
    (hnodup : (cs.map name).Nodup) (hmem : cell.1 ∈ cs.map name) :
    cellCount (pushNamed cs cell) = cellCount cs + 1 := by
  have hother : ∀ cs : List ColumnContents, cell.1 ∉ cs.map name →
      cellCount (pushNamed cs cell) = cellCount cs := by
    intro cs hnot
    unfold cellCount pushNamed
    rw [map_map]
    congr 1
    refine map_congr_left fun k hk => ?_
    have hne : k.name ≠ cell.1 := fun heq => hnot (heq ▸ mem_map_of_mem hk)
    simp [hne]
  induction cs with
  | nil => cases hmem
  | cons k cs ih =>
    rw [map_cons, nodup_cons] at hnodup
    have hcons : cellCount (pushNamed (k :: cs) cell) =
        (if k.name = cell.1 then k.push cell.2.2 else k).rows.length +
          cellCount (pushNamed cs cell) :=
      rfl
    have hcount : cellCount (k :: cs) = k.rows.length + cellCount cs := rfl
    rw [hcons]
    split_ifs with hk
    · rw [hother cs (hk ▸ hnodup.1)]
      simp only [push, length_append, length_singleton]
      omega
    · rw [ih hnodup.2 ((mem_cons.mp hmem).resolve_left (Ne.symm hk))]
      omega

theorem TickShape.of_headers (h : TickShape cs) (heq : headers cs' = headers cs) :
    TickShape cs' := by
  unfold TickShape
  rw [heq]
  exact h

theorem cellCount_pushAll (h : TickShape cs) (hdone : ∀ cell ∈ done, cell.1 ∈ tickNames) :
    cellCount (done.foldl pushNamed cs) = cellCount cs + done.length := by
  induction done generalizing cs with
  | nil => rfl
  | cons cell done ih =>
    have hpush : cellCount (pushNamed cs cell) = cellCount cs + 1 := by
      refine cellCount_pushNamed ?_ ?_
      · rw [h.names]
        decide
      · rw [h.names]
        exact hdone cell mem_cons_self
    rw [foldl_cons, ih (h.of_headers (headers_pushNamed cs cell))
      fun cell' h' => hdone cell' (mem_cons_of_mem _ h'), length_cons]
    omega

theorem cellCount_append (cs cs' : List ColumnContents) :
    cellCount (cs ++ cs') = cellCount cs + cellCount cs' := by
  simp [cellCount]

theorem cellCount_tickColumns (msg : TickMessage) (cs : List ColumnContents) :
    cellCount (tickColumns msg cs) = cellCount cs := by
  unfold tickColumns
  split
  · rfl
  · rw [cellCount_append]
    rfl

theorem rowsKept_tickColumns (msg : TickMessage) (cs : List ColumnContents) :
    RowsKept cs (tickColumns msg cs) := by
  unfold tickColumns
  split
  · exact .refl cs
  · refine ⟨_, rfl, fun k hk => ⟨0, Nat.zero_le _, ?_⟩⟩
    simp only [tickContents, mem_cons, not_mem_nil, or_false] at hk
    rcases hk with rfl | rfl | rfl | rfl <;> rfl

theorem cellCount_of_rowsKept (hcs : cs = [] ∨ TickShape cs) (hcs' : cs' = [] ∨ TickShape cs')
    (h : RowsKept cs cs') : cellCount cs' = cellCount cs := by
  obtain ⟨extra, rfl, hextra⟩ := h
  rw [cellCount_append]
  rcases hcs with rfl | hcs
  · have hzero : cellCount extra = 0 := by
      unfold cellCount
      rw [sum_eq_zero_iff]
      intro n hn
      obtain ⟨k, hk, rfl⟩ := mem_map.mp hn
      obtain ⟨m, hm, hrows⟩ := hextra k hk
      rw [hrows, length_replicate]
      exact Nat.le_zero.mp hm
    rw [hzero]
    rfl
  · have hlen : ∀ cs, TickShape cs → cs.length = 4 := fun cs h => by
      simpa [headers] using congrArg length h
    rcases hcs' with hnil | hcs'
    · rw [append_eq_nil_iff] at hnil
      rw [hnil.2]
      rfl
    have h1 := hlen _ hcs
    have h2 := hlen _ hcs'
    rw [length_append] at h2
    rw [length_eq_zero_iff.mp (show extra.length = 0 by omega)]
    rfl

theorem names_of_sublist (h : done.Sublist msg.cells) : ∀ cell ∈ done, cell.1 ∈ tickNames := by
  intro cell hcell
  exact mem_map_of_mem (f := Prod.fst) (h.mem hcell)

theorem timesOf_pushAll (h : TickShape cs) (hdone : done.Sublist msg.cells) :
    ∃ l, timesOf (done.foldl pushNamed cs) = timesOf cs ++ l ∧
      (∀ x ∈ l, x = unsigned 64 msg.recvTs) ∧
        (done = msg.cells → l = [unsigned 64 msg.recvTs]) := by
  obtain ⟨k, cs, rfl⟩ : ∃ k cs', cs = k :: cs' := by
    refine exists_cons_of_length_pos ?_
    have : cs.length = 4 := by simpa [headers] using congrArg length h
    omega
  have hname : k.name = "timestamp" := by
    have := h.names
    exact (cons.inj this).1
  -- The other cells go to other columns.
  have hrest : ∀ (l : List (String × Nat × Nat)) (k : ColumnContents) (cs : List ColumnContents),
      k.name = "timestamp" → (∀ cell ∈ l, cell.1 ≠ "timestamp") →
      timesOf (l.foldl pushNamed (k :: cs)) = k.rows := by
    intro l
    induction l with
    | nil => exact fun _ _ _ _ => rfl
    | cons cell l ih =>
      intro k cs hk hl
      have hne : k.name ≠ cell.1 := fun heq => hl cell mem_cons_self (heq ▸ hk)
      have hpush : pushNamed (k :: cs) cell = k :: pushNamed cs cell := by
        simp [pushNamed, hne]
      rw [foldl_cons, hpush]
      exact ih k _ hk fun c hc => hl c (mem_cons_of_mem _ hc)
  have htail : ∀ l : List (String × Nat × Nat), l.Sublist msg.cells.tail →
      ∀ cell ∈ l, cell.1 ≠ "timestamp" := by
    intro l hl cell hcell
    have := hl.mem hcell
    simp only [TickMessage.cells, tail_cons, mem_cons, not_mem_nil, or_false] at this
    rcases this with rfl | rfl | rfl <;> simp
  rcases sublist_cons_iff.mp hdone with hsub | ⟨l, rfl, hsub⟩
  · refine ⟨[], ?_, by simp, fun heq => ?_⟩
    · rw [hrest done k cs hname (htail done hsub)]
      exact (append_nil _).symm
    · have := hsub.length_le
      rw [heq] at this
      simp [TickMessage.cells] at this
  · refine ⟨[unsigned 64 msg.recvTs], ?_, by simp, fun _ => rfl⟩
    have hpush : pushNamed (k :: cs) ("timestamp", 8, unsigned 64 msg.recvTs) =
        k.push (unsigned 64 msg.recvTs) ::
          pushNamed cs ("timestamp", 8, unsigned 64 msg.recvTs) := by
      simp [pushNamed, hname]
    rw [foldl_cons, hpush, hrest l (k.push _) _ hname (htail l hsub)]
    rfl

theorem timesOf_tickColumns (h : cs = [] ∨ TickShape cs) (msg : TickMessage) :
    timesOf (tickColumns msg cs) = timesOf cs := by
  rcases h with rfl | h
  · rfl
  · rw [h.tickColumns_eq]

/-! ## Ticks of a database -/

/-- The ticks of legacy tables find the columns of ticks, or none at all. -/
def TickReady (db : Database) : Prop :=
  ∀ k, k.tableId = 0 → db.contentsOf k = [] ∨ TickShape (db.contentsOf k)

end

section

variable (arenaSize : Fin (2 ^ 32))

def ticksTaken : List TickMessage → Database → Bool
  | [], _ => true
  | msg :: msgs, db =>
    ((db.partitionFor arenaSize msg.key).addTickColumns msg).takesTick &&
      ticksTaken msgs (storeTick arenaSize db msg)

def ticksRefused : List TickMessage → Database → Bool
  | [], _ => true
  | msg :: msgs, db =>
    ((db.partitionFor arenaSize msg.key).addTickColumns msg).refusesTick &&
      ticksRefused msgs (storeTick arenaSize db msg)

def pushAt (contents : PartitionKey → List ColumnContents) (msg : TickMessage) :
    PartitionKey → List ColumnContents :=
  fun k => if k = msg.key then pushTick (contents k) msg else contents k

variable {arenaSize} {db : Database} {msgs : List TickMessage} {msg : TickMessage}

theorem storeTick_contents (arenaSize : Fin (2 ^ 32)) (hready : TickReady db)
    (hid : msg.tableId = 0) :
    ∃ done, done.Sublist msg.cells ∧ (∀ k, (storeTick arenaSize db msg).contentsOf k =
        if k = msg.key then done.foldl pushNamed (tickColumns msg (db.contentsOf k))
        else db.contentsOf k) ∧
      (((db.partitionFor arenaSize msg.key).addTickColumns msg).takesTick ↔ done = msg.cells) ∧
      (((db.partitionFor arenaSize msg.key).addTickColumns msg).refusesTick ↔ done = []) := by
  have hcont := db.contents_partitionFor arenaSize msg.key
  have hat := fun k => db.partitionAt_storeTick arenaSize msg k
  generalize db.partitionFor arenaSize msg.key = p at hcont hat ⊢
  obtain ⟨done, hsub, hdone, htakes, hrefuses⟩ := p.addTick_spec msg (hcont ▸ hready msg.key hid)
  refine ⟨done, hsub, fun k => ?_, htakes, hrefuses⟩
  split_ifs with hk
  · rw [hk, ← hcont, ← hdone, Database.contentsOf, hat, if_pos rfl, Option.map_some,
      Option.getD_some]
  · rw [Database.contentsOf, hat, if_neg hk, Database.contentsOf]

theorem TickReady.storeTick (hready : TickReady db) (arenaSize : Fin (2 ^ 32)) (msg : TickMessage) :
    TickReady (storeTick arenaSize db msg) := by
  intro k hk
  by_cases hkey : k = msg.key
  · obtain ⟨done, -, hcont, -⟩ := storeTick_contents arenaSize hready (hkey ▸ hk)
    rw [hcont k, if_pos hkey]
    refine .inr (.of_headers ?_ (headers_foldl_pushNamed _ _))
    exact tickShape_tickColumns (hready k hk)
  · rw [Database.contentsOf, db.partitionAt_storeTick, if_neg hkey]
    exact hready k hk

theorem TickReady.storeAll (hready : TickReady db) :
    TickReady (msgs.foldl (Storage.storeTick arenaSize) db) := by
  induction msgs generalizing db with
  | nil => exact hready
  | cons msg msgs ih => exact ih (hready.storeTick _ msg)

section

variable (hready : TickReady db) (hid : ∀ msg ∈ msgs, msg.tableId = 0)

include hready hid

/-- Ticks that are all taken stand behind what was there. -/
theorem contents_of_taken (h : ticksTaken arenaSize msgs db) :
    (msgs.foldl (storeTick arenaSize) db).contentsOf = msgs.foldl pushAt db.contentsOf := by
  induction msgs generalizing db with
  | nil => rfl
  | cons msg msgs ih =>
    obtain ⟨hid0, hids⟩ := forall_mem_cons.mp hid
    rw [ticksTaken, Bool.and_eq_true] at h
    obtain ⟨done, -, hcont, htakes, -⟩ := storeTick_contents arenaSize hready hid0
    have hstep : (storeTick arenaSize db msg).contentsOf = pushAt db.contentsOf msg := by
      funext k
      rw [hcont k, htakes.mp h.1]
      rfl
    rw [foldl_cons, foldl_cons, ← hstep]
    exact ih (hready.storeTick _ msg) hids h.2

/-- Ticks that are all refused leave no row. -/
theorem rowsKept_of_refused (h : ticksRefused arenaSize msgs db) (k : PartitionKey) :
    RowsKept (db.contentsOf k) ((msgs.foldl (storeTick arenaSize) db).contentsOf k) := by
  induction msgs generalizing db with
  | nil => exact .refl _
  | cons msg msgs ih =>
    obtain ⟨hid0, hids⟩ := forall_mem_cons.mp hid
    rw [ticksRefused, Bool.and_eq_true] at h
    obtain ⟨done, -, hcont, -, hrefuses⟩ := storeTick_contents arenaSize hready hid0
    refine .trans ?_ (ih (hready.storeTick _ msg) hids h.2)
    rw [hcont k, hrefuses.mp h.1]
    split
    · exact rowsKept_tickColumns msg _
    · exact .refl _

end

/-! ## Counting cells -/

def cellsOf (msgs : List TickMessage) (k : PartitionKey) : Nat :=
  4 * msgs.countP fun msg => msg.key = k

theorem cellsOf_cons (msg : TickMessage) (msgs : List TickMessage) (k : PartitionKey) :
    cellsOf (msg :: msgs) k = cellsOf msgs k + if k = msg.key then 4 else 0 := by
  unfold cellsOf
  by_cases hk : k = msg.key
  · simp [hk]
    omega
  · simp [hk, Ne.symm hk]

/-- One tick takes four cells if it is taken, none if refused, and at most four. -/
theorem cellCount_storeTick (arenaSize : Fin (2 ^ 32)) (hready : TickReady db)
    (hid : msg.tableId = 0) :
    ∃ n ≤ 4, (∀ k, cellCount ((storeTick arenaSize db msg).contentsOf k) =
        cellCount (db.contentsOf k) + if k = msg.key then n else 0) ∧
      (n = 4 → ((db.partitionFor arenaSize msg.key).addTickColumns msg).takesTick) ∧
      (n = 0 → ((db.partitionFor arenaSize msg.key).addTickColumns msg).refusesTick) := by
  obtain ⟨done, hsub, hcont, htakes, hrefuses⟩ := storeTick_contents arenaSize hready hid
  refine ⟨done.length, hsub.length_le, fun k => ?_, fun h => ?_, fun h => ?_⟩
  · rw [hcont k]
    split
    next hk =>
      have hshape : TickShape (tickColumns msg (db.contentsOf k)) :=
        tickShape_tickColumns (hready k (by rw [hk]; exact hid))
      rw [cellCount_pushAll hshape (names_of_sublist hsub), cellCount_tickColumns]
    · rfl
  · exact htakes.mpr (hsub.eq_of_length h)
  · exact hrefuses.mpr (length_eq_zero_iff.mp h)

/-- Each partition has none to all of the cells of its ticks more: all only if all ticks were taken,
none only if all were refused. -/
theorem cellCount_storeAll (arenaSize : Fin (2 ^ 32)) (hready : TickReady db)
    (hid : ∀ msg ∈ msgs, msg.tableId = 0) :
    let before := fun k => cellCount (db.contentsOf k)
    let after := fun k => cellCount ((msgs.foldl (storeTick arenaSize) db).contentsOf k)
    (∀ k, before k ≤ after k ∧ after k ≤ before k + cellsOf msgs k) ∧
      ((∀ k, after k = before k + cellsOf msgs k) → ticksTaken arenaSize msgs db) ∧
      ((∀ k, after k = before k) → ticksRefused arenaSize msgs db) := by
  induction msgs generalizing db with
  | nil => exact ⟨fun _ => ⟨le_refl _, Nat.le_add_right _ _⟩, fun _ => rfl, fun _ => rfl⟩
  | cons msg msgs ih =>
    obtain ⟨hid0, hids⟩ := forall_mem_cons.mp hid
    obtain ⟨n, hn, hcount, htakes, hrefuses⟩ := cellCount_storeTick arenaSize hready hid0
    obtain ⟨hbounds, htaken, hrefused⟩ := ih (hready.storeTick arenaSize msg) hids
    simp only [hcount] at hbounds htaken hrefused
    simp only [foldl_cons, cellsOf_cons]
    have hkey := hbounds msg.key
    rw [if_pos rfl] at hkey
    refine ⟨fun k => ?_, fun h => ?_, fun h => ?_⟩
    · have := hbounds k
      split
      all_goals simp_all only [if_true, if_false]; omega
    · have hmsg := h msg.key
      rw [if_pos rfl] at hmsg
      have hn4 : n = 4 := by omega
      rw [ticksTaken, Bool.and_eq_true]
      refine ⟨htakes hn4, htaken fun k => ?_⟩
      rw [h k, hn4]
      omega
    · have hmsg := h msg.key
      have hn0 : n = 0 := by omega
      rw [ticksRefused, Bool.and_eq_true]
      refine ⟨hrefuses hn0, hrefused fun k => ?_⟩
      rw [h k, hn0]
      simp

theorem pushAt_ready {contents : PartitionKey → List ColumnContents}
    (hready : ∀ k, k.tableId = 0 → contents k = [] ∨ TickShape (contents k)) (msg : TickMessage) :
    ∀ k, k.tableId = 0 → pushAt contents msg k = [] ∨ TickShape (pushAt contents msg k) := by
  intro k hk
  unfold pushAt
  split
  · exact .inr (.of_headers (tickShape_tickColumns (hready k hk)) (headers_foldl_pushNamed _ _))
  · exact hready k hk

theorem cellCount_pushAt (contents : PartitionKey → List ColumnContents)
    (hready : ∀ k, k.tableId = 0 → contents k = [] ∨ TickShape (contents k))
    (hid : ∀ msg ∈ msgs, msg.tableId = 0) (k : PartitionKey) :
    cellCount (msgs.foldl pushAt contents k) = cellCount (contents k) + cellsOf msgs k := by
  induction msgs generalizing contents with
  | nil => rfl
  | cons msg msgs ih =>
    obtain ⟨hid0, hids⟩ := forall_mem_cons.mp hid
    have hshape : TickShape (tickColumns msg (contents msg.key)) :=
      tickShape_tickColumns (hready msg.key hid0)
    rw [foldl_cons, ih _ (pushAt_ready hready msg) hids, cellsOf_cons, pushAt]
    split
    next hk =>
      rw [hk, pushTick, cellCount_pushAll hshape (names_of_sublist (.refl _)),
        cellCount_tickColumns]
      simp [TickMessage.cells]
      omega
    · rfl

/-! ## Times -/

/-- The times that come in are those of the ticks of the partition. -/
theorem timesOf_storeAll (arenaSize : Fin (2 ^ 32)) (hready : TickReady db)
    (hid : ∀ msg ∈ msgs, msg.tableId = 0) (k : PartitionKey) :
    ∃ l, timesOf ((msgs.foldl (storeTick arenaSize) db).contentsOf k) =
        timesOf (db.contentsOf k) ++ l ∧
      ∀ x ∈ l, ∃ msg ∈ msgs, msg.key = k ∧ x = unsigned 64 msg.recvTs := by
  induction msgs generalizing db with
  | nil => exact ⟨[], (append_nil _).symm, by simp⟩
  | cons msg msgs ih =>
    obtain ⟨hid0, hids⟩ := forall_mem_cons.mp hid
    obtain ⟨done, hsub, hcont, -⟩ := storeTick_contents arenaSize hready hid0
    obtain ⟨l, hl, htimes⟩ := ih (hready.storeTick arenaSize msg) hids
    have hlater : ∀ x ∈ l, ∃ m ∈ msg :: msgs, m.key = k ∧ x = unsigned 64 m.recvTs := by
      intro x hx
      obtain ⟨m, hm, hkey⟩ := htimes x hx
      exact ⟨m, mem_cons_of_mem _ hm, hkey⟩
    rw [hcont k] at hl
    rw [foldl_cons, hl]
    split
    next hk =>
      have hready0 := hready k (by rw [hk]; exact hid0)
      obtain ⟨l0, hl0, hall, -⟩ := timesOf_pushAll (tickShape_tickColumns hready0) hsub
      rw [hl0, timesOf_tickColumns hready0]
      refine ⟨l0 ++ l, append_assoc _ _ _, fun x hx => ?_⟩
      rcases mem_append.mp hx with hx | hx
      · exact ⟨msg, mem_cons_self, hk.symm, hall x hx⟩
      · exact hlater x hx
    · exact ⟨l, rfl, hlater⟩

theorem timesOf_pushAt (contents : PartitionKey → List ColumnContents)
    (hready : ∀ k, k.tableId = 0 → contents k = [] ∨ TickShape (contents k))
    (hid : ∀ msg ∈ msgs, msg.tableId = 0) (k : PartitionKey) :
    timesOf (msgs.foldl pushAt contents k) = timesOf (contents k) ++
      (msgs.filter fun msg => msg.key = k).map fun msg => unsigned 64 msg.recvTs := by
  induction msgs generalizing contents with
  | nil => exact (append_nil _).symm
  | cons msg msgs ih =>
    obtain ⟨hid0, hids⟩ := forall_mem_cons.mp hid
    have hready0 := hready msg.key hid0
    have hshape : TickShape (tickColumns msg (contents msg.key)) := tickShape_tickColumns hready0
    rw [foldl_cons, ih _ (pushAt_ready hready msg) hids, pushAt]
    split_ifs with hk
    · obtain ⟨l, hl, -, hfull⟩ := timesOf_pushAll hshape (.refl msg.cells)
      rw [hk, pushTick, hl, hfull rfl, timesOf_tickColumns hready0,
        filter_cons_of_pos (by simp), append_assoc]
      rfl
    · rw [filter_cons_of_neg (by simpa using Ne.symm hk)]

end

end Zepto.Storage
