import Zepto.Ingestion.RingBuffer
import Zepto.Storage.Database

/-!
# Writing rows

A column grows by taking a block twice as large from the arena of its partition and copying its rows
there; the arena never takes a byte back. A tick fills the columns `timestamp`, `price`, `volume`
and `msg_type` of its partition and reaches every materialized view (`storeTick`). A typed row fills
the columns of its table's schema (`ingestTypedRow`) and reaches no view. The memory limit of the
pipeline, off unless configured, is left out.
-/

namespace Zepto.Storage

open List Zepto.Lib

/-! ## Growing columns -/

/-- `align_up` to a cache line. -/
def alignUp (n : Nat) : Nat := (n + 63) / 64 * 64

/-- The memory after `n` bytes were copied from `src` to `dst`. -/
def copyBytes (m : Mem) (src dst n : Nat) : Mem :=
  fun x => if dst ≤ x ∧ x < dst + n then m (src + (x - dst)) else m x

variable {α : Type}

theorem pairwise_set {R : α → α → Prop} {l : List α} {i : Nat} {c c' : α}
    (h : l.Pairwise R) (hi : l[i]? = some c) (hleft : ∀ d ∈ l, R c d → R c' d)
    (hright : ∀ d ∈ l, R d c → R d c') : (l.set i c').Pairwise R := by
  induction l generalizing i with
  | nil => exact .nil
  | cons a l ih =>
    rw [pairwise_cons] at h
    cases i with
    | zero =>
      cases hi
      exact pairwise_cons.mpr ⟨fun d hd => hleft d (mem_cons_of_mem _ hd) (h.1 d hd), h.2⟩
    | succ i =>
      refine pairwise_cons.mpr ⟨fun d hd => ?_, ih h.2 hi
        (fun d hd => hleft d (mem_cons_of_mem _ hd))
        (fun d hd => hright d (mem_cons_of_mem _ hd))⟩
      rcases mem_or_eq_of_mem_set hd with hd | rfl
      · exact h.1 d hd
      · exact hright a mem_cons_self (h.1 c (mem_of_getElem? hi))

namespace ColumnVector

def empty (name : String) (type : ColumnType) : ColumnVector := ⟨name, type, none, 0, 0⟩

theorem not_owns_empty (name : String) (type : ColumnType) (x : Nat) :
    ¬(empty name type).Owns x := by
  rintro ⟨-, hx⟩
  simp [stop, addr, empty] at hx

def nextCapacity (c : ColumnVector) : Nat := if c.capacity = 0 then 8192 else 2 * c.capacity

/-- The column in a block at `start`. -/
def moveTo (c : ColumnVector) (start : Nat) : ColumnVector :=
  { c with data := some start, capacity := c.nextCapacity }

theorem capacity_lt_nextCapacity (c : ColumnVector) : c.capacity < c.nextCapacity := by
  unfold nextCapacity
  split <;> omega

theorem apart_of_stop_le {c d : ColumnVector} (h : d.stop ≤ c.addr) : c.Apart d := by
  rintro x ⟨⟨hx, -⟩, -, hd⟩
  omega

theorem Apart.symm {c d : ColumnVector} (h : c.Apart d) : d.Apart c := fun x hx => h x hx.symm

end ColumnVector

namespace Partition

def blockStart (p : Partition) : Nat := alignUp p.arenaUsed

theorem stop_le_blockStart (p : Partition) {c : ColumnVector} (hc : c ∈ p.columns) :
    c.stop ≤ p.blockStart :=
  le_trans (p.handedOut c hc) (by unfold blockStart alignUp; omega)

/-- `ensure_capacity`: column `i` moves to a larger block if full and there is one. -/
def grow (p : Partition) (i : Nat) : Partition :=
  match hi : p.columns[i]? with
  | none => p
  | some c =>
    if h : c.size = c.capacity ∧ (c.moveTo p.blockStart).stop ≤ p.arenaSize then
      { p with
        columns := p.columns.set i (c.moveTo p.blockStart)
        mem := copyBytes p.mem c.addr p.blockStart (c.type.size * c.size)
        arenaUsed := (c.moveTo p.blockStart).stop
        fits := by
          intro d hd
          rcases mem_or_eq_of_mem_set hd with hd | rfl
          · exact p.fits d hd
          · have hc := p.fits c (mem_of_getElem? hi)
            exact ⟨le_trans hc.size_le (le_of_lt c.capacity_lt_nextCapacity),
              fun h => by simp [ColumnVector.moveTo] at h, hc.size_lt⟩
        apart := by
          refine pairwise_set p.apart hi (fun d hd _ => ?_) (fun d hd _ => ?_)
          · exact ColumnVector.apart_of_stop_le (p.stop_le_blockStart hd)
          · exact (ColumnVector.apart_of_stop_le (p.stop_le_blockStart hd)).symm
        handedOut := by
          intro d hd
          rcases mem_or_eq_of_mem_set hd with hd | rfl
          · exact le_trans (p.stop_le_blockStart hd) (Nat.le_add_right _ _)
          · exact le_refl _
        used_le := h.2 }
    else p

/-- `append<T>` on column `i`, `T` having the given width; false without room. -/
def append (p : Partition) (i width bits : Nat) : Partition × Bool :=
  let p := p.grow i
  match hi : p.columns[i]? with
  | none => (p, false)
  | some c =>
    if h : c.size < c.capacity then
      ({ p with
        columns := p.columns.set i { c with size := c.size + 1 }
        mem := store p.mem (c.addr + width * c.size) width bits
        fits := by
          intro d hd
          rcases mem_or_eq_of_mem_set hd with hd | rfl
          · exact p.fits d hd
          have hmem := mem_of_getElem? hi
          have hfits := p.fits c hmem
          -- Every row takes a byte of the arena at least.
          have hstop := p.handedOut c hmem
          have hbytes : c.capacity ≤ c.type.size * c.capacity :=
            Nat.le_mul_of_pos_left _ c.type.size_pos
          have hused := p.used_le
          have harena := p.arena_lt
          unfold ColumnVector.stop at hstop
          exact ⟨h, hfits.null, by simp only; omega⟩
        apart := pairwise_set p.apart hi (fun _ _ h => h) (fun _ _ h => h)
        handedOut := by
          intro d hd
          rcases mem_or_eq_of_mem_set hd with hd | rfl
          · exact p.handedOut d hd
          · exact p.handedOut c (mem_of_getElem? hi) }, true)
    else (p, false)

/-- `add_column`; the first block may fail. -/
def addColumn (p : Partition) (name : String) (type : ColumnType) : Partition :=
  grow
    { p with
      columns := p.columns ++ [.empty name type]
      fits := by
        intro c hc
        rcases mem_append.mp hc with hc | hc
        · exact p.fits c hc
        · rw [mem_singleton.mp hc]
          exact ⟨le_refl 0, fun _ => rfl, by simp [ColumnVector.empty]⟩
      apart := by
        refine pairwise_append.mpr ⟨p.apart, pairwise_singleton _ _, ?_⟩
        intro c _ d hd x hx
        rw [mem_singleton.mp hd] at hx
        exact ColumnVector.not_owns_empty name type x hx.2
      handedOut := by
        intro c hc
        rcases mem_append.mp hc with hc | hc
        · exact p.handedOut c hc
        · rw [mem_singleton.mp hc]
          exact Nat.zero_le _ }
    p.columns.length

def attributes (p : Partition) : List String × AList (fun _ : String => GroupedIndex) ×
    AList (fun _ : String => PartedIndex) :=
  (p.sortedColumns, p.groupedIndexes, p.partedIndexes)

/-- What appends leave alone. -/
abbrev fixed (p : Partition) := (p.key, p.attributes)

theorem grow_fixed (p : Partition) (i : Nat) : (p.grow i).fixed = p.fixed := by
  unfold grow
  split
  · rfl
  · split <;> rfl

theorem append_fixed (p : Partition) (i width bits : Nat) :
    (p.append i width bits).1.fixed = p.fixed := by
  unfold append
  simp only
  split
  · exact p.grow_fixed i
  · split <;> exact p.grow_fixed i

theorem addColumn_fixed (p : Partition) (name : String) (type : ColumnType) :
    (p.addColumn name type).fixed = p.fixed :=
  grow_fixed _ _

def new (arenaSize : Fin (2 ^ 32)) (key : PartitionKey) : Partition where
  key
  columns := []
  mem := fun _ => 0
  arenaUsed := 0
  arenaSize := arenaSize
  fits := by simp
  apart := .nil
  handedOut := by simp
  used_le := Nat.zero_le _
  arena_lt := arenaSize.isLt

end Partition

/-! ## Finding the partition -/

def toHourEpoch (ts : Int) : Int := ts.tdiv nsPerHour * nsPerHour

/-- A change of a partition that keeps its key, with an answer. -/
structure PartitionEdit (α : Type) where
  edit : Partition → α × Partition
  key_edit : ∀ p, (edit p).2.key = p.key

def editIn {α : Type} (f : PartitionEdit α) (key : PartitionKey) :
    List Partition → Option (α × List Partition)
  | [] => none
  | p :: ps =>
    if p.key = key then some ((f.edit p).1, (f.edit p).2 :: ps)
    else (editIn f key ps).map fun r => (r.1, p :: r.2)

variable {key : PartitionKey}

theorem editIn_keys {f : PartitionEdit α} {ps : List Partition}
    {r : α × List Partition} (h : editIn f key ps = some r) :
    r.2.map Partition.key = ps.map Partition.key := by
  induction ps generalizing r with
  | nil => cases h
  | cons p ps ih =>
    unfold editIn at h
    split at h
    · cases h
      simp [f.key_edit]
    · obtain ⟨r', hr', rfl⟩ := Option.map_eq_some_iff.mp h
      simp [ih hr']

theorem key_notMem_of_editIn {f : PartitionEdit α}
    {ps : List Partition} (h : editIn f key ps = none) : key ∉ ps.map Partition.key := by
  induction ps with
  | nil => simp
  | cons p ps ih =>
    unfold editIn at h
    split at h
    · cases h
    rename_i hkey
    rw [Option.map_eq_none_iff] at h
    rw [map_cons, mem_cons, not_or]
    exact ⟨fun heq => hkey heq.symm, ih h⟩

/-- Change the partition of a key, created if there is none (`get_or_create`). -/
def Database.editPartition {α : Type} (db : Database) (arenaSize : Fin (2 ^ 32))
    (key : PartitionKey) (f : PartitionEdit α) : α × Database :=
  match h : editIn f key db.partitions with
  | some r =>
    (r.1, { db with partitions := r.2, keys_nodup := editIn_keys h ▸ db.keys_nodup })
  | none =>
    let r := f.edit (.new arenaSize key)
    (r.1, { db with
      partitions := db.partitions ++ [r.2]
      keys_nodup := by
        rw [map_append, nodup_append]
        refine ⟨db.keys_nodup, nodup_singleton _, ?_⟩
        intro k hk k' hk' heq
        rw [map_singleton, mem_singleton, f.key_edit] at hk'
        subst hk' heq
        exact key_notMem_of_editIn h hk })

theorem Database.editPartition_registry (db : Database)
    (arenaSize : Fin (2 ^ 32)) (f : PartitionEdit α) :
    (db.editPartition arenaSize key f).2.registry = db.registry := by
  unfold editPartition
  split <;> rfl

/-! ## Ticks -/

/-- A tick; integer and floating prices share the eight bytes of `price`. -/
structure TickMessage where
  recvTs : Int
  symbolId : SymbolId
  price : Int
  volume : Int
  msgType : BitVec 8 := 0
  priceIsFloat : Bool := false
  tableId : TableId := 0
  deriving DecidableEq

namespace Partition

/-- Append to the first column of a name. Without one the source goes through a null pointer; here
nothing happens. -/
def appendNamed (p : Partition) (name : String) (width bits : Nat) : Partition :=
  (p.append (p.columns.findIdx fun c => c.name = name) width bits).1

def addTickColumns (p : Partition) (msg : TickMessage) : Partition :=
  if (p.getColumn "timestamp").isSome then p
  else
    (((p.addColumn "timestamp" .timestampNs).addColumn "price"
      (if msg.priceIsFloat then .float64 else .int64)).addColumn "volume" .int64).addColumn
        "msg_type" .int32

/-- The part of `store_tick` that writes the row. -/
def addTick (p : Partition) (msg : TickMessage) : Partition :=
  ((((p.addTickColumns msg).appendNamed "timestamp" 8 (unsigned 64 msg.recvTs)).appendNamed
    "price" 8 (unsigned 64 msg.price)).appendNamed
    "volume" 8 (unsigned 64 msg.volume)).appendNamed
    "msg_type" 4 msg.msgType.toNat

theorem addTick_fixed (p : Partition) (msg : TickMessage) : (p.addTick msg).fixed = p.fixed := by
  unfold addTick addTickColumns
  simp only [appendNamed, append_fixed]
  split
  · rfl
  · simp [addColumn_fixed]

theorem addTick_key (p : Partition) (msg : TickMessage) : (p.addTick msg).key = p.key :=
  congrArg Prod.fst (p.addTick_fixed msg)

/-- A new partition with ticks of the given prices, a nanosecond apart. -/
def ofPrices (key : PartitionKey) (prices : List Int) (priceIsFloat : Bool := false) : Partition :=
  prices.zipIdx.foldl (fun p tick => p.addTick
    { recvTs := tick.2, symbolId := key.symbolId, price := tick.1, volume := 1, priceIsFloat
      tableId := key.tableId }) (.new 4194304 key)

end Partition

def storeTick (arenaSize : Fin (2 ^ 32)) (db : Database) (msg : TickMessage) : Database :=
  let stored := (db.editPartition arenaSize ⟨msg.tableId, msg.symbolId, toHourEpoch msg.recvTs⟩
    ⟨fun p => ((), p.addTick msg), fun p => p.addTick_key msg⟩).2
  { stored with views := stored.views.onTick msg.symbolId msg.recvTs msg.price msg.volume }

def TickMessage.stamp (now : Int) (msg : TickMessage) : TickMessage := { msg with recvTs := now }

/-- The tick queue as a drain leaves it: the slot that is read next is empty. Others may hold ticks,
if the write position is not the read position. -/
abbrev TickQueue := { q : Ingestion.RingBuffer TickMessage // q.tryPop = none }

/-- `ingest_tick` on one tick after another: those that the queue does not take, which are stored at
once with the caller's time, and the queue with the others, stamped by the clock. -/
def pushTicks (now : Int) :
    Ingestion.RingBuffer TickMessage → List TickMessage →
      List TickMessage × Ingestion.RingBuffer TickMessage
  | queue, [] => ([], queue)
  | queue, msg :: msgs =>
    let pushed := queue.tryPush (msg.stamp now)
    let rest := pushTicks now pushed.2 msgs
    (if pushed.1 then rest.1 else msg :: rest.1, rest.2)

/-- The ticks in the order they are stored: those not taken, and what `drain_sync` pops. -/
def storeOrder (queue : TickQueue) (now : Int) (msgs : List TickMessage) : List TickMessage :=
  let pushed := pushTicks now queue.1 msgs
  pushed.1 ++ pushed.2.ready

def storeTicks (arenaSize : Fin (2 ^ 32)) (queue : TickQueue) (now : Int) (db : Database)
    (msgs : List TickMessage) : Database :=
  (storeOrder queue now msgs).foldl (storeTick arenaSize) db

namespace StringDictionary

def intern (d : StringDictionary) (s : String) : SymbolId × StringDictionary :=
  match d.index.lookup s with
  | some code => (code, d)
  | none =>
    let code := BitVec.ofNat 32 d.strings.length
    (code, { strings := d.strings ++ [some s], index := d.index.insert s code })

/-- `ensure_code`; the table of names grows even if the code is taken. -/
def ensureCode (d : StringDictionary) (code : SymbolId) (s : String) : Bool × StringDictionary :=
  match d.index.lookup s with
  | some c => (c = code, d)
  | none =>
    let strings := d.strings ++ replicate (code.toNat + 1 - d.strings.length) none
    match strings.getD code.toNat none with
    | some t =>
      if t ≠ s then (false, { d with strings })
      else (true, { strings := strings.set code.toNat (some s), index := d.index.insert s code })
    | none => (true, { strings := strings.set code.toNat (some s), index := d.index.insert s code })

end StringDictionary

/-! ## Typed rows -/

structure TypedColumnValue where
  name : String
  type : ColumnType
  i64 : Int := 0
  f64 : Float := .ofBits 0
  u32 : SymbolId := 0
  u8 : BitVec 8 := 0
  stringValue : Option String := none

structure TypedRowMessage where
  tableId : TableId
  symbolId : SymbolId := 0
  timestamp : Int
  columns : List TypedColumnValue

/-- The bits `append_typed_value` writes to a column of the value's type. -/
def TypedColumnValue.bits (v : TypedColumnValue) : Option Nat :=
  match v.type with
  | .int32 => if -2 ^ 31 ≤ v.i64 ∧ v.i64 < 2 ^ 31 then some (unsigned 32 v.i64) else none
  | .int64 | .timestampNs => some (unsigned 64 v.i64)
  | .float32 => some v.f64.toFloat32.toBits.toNat
  | .float64 => some v.f64.toBits.toNat
  | .symbol | .string => some v.u32.toNat
  | .bool => some (if v.u8 = 0 then 0 else 1)

/-- The values name different columns of the schema and have their types. -/
def rowFits (schema : TableSchema) (values : List TypedColumnValue) : Bool :=
  values.all (fun v => v.name ≠ "") && (values.map TypedColumnValue.name).Nodup &&
    values.all fun v =>
      (schema.columns.find? fun c => c.name = v.name).any fun c => c.type = v.type

/-- Bind the codes of a row's strings, up to the first that cannot be bound. -/
def bindCodes (d : StringDictionary) : List TypedColumnValue → Bool × StringDictionary
  | [] => (true, d)
  | v :: vs =>
    match v.stringValue with
    | some s =>
      if v.type = .symbol ∨ v.type = .string then
        let r := d.ensureCode v.u32 s
        if r.1 then bindCodes r.2 vs else r
      else bindCodes d vs
    | none => bindCodes d vs

namespace Partition

/-- Append zeros to column `i`, one per row, until one does not fit. -/
def appendZeros (p : Partition) (i width : Nat) : Nat → Bool × Partition
  | 0 => (true, p)
  | n + 1 =>
    let r := p.append i width 0
    if r.2 then r.1.appendZeros i width n else (false, r.1)

def addMissing (p : Partition) (rows : Nat) : List ColumnDef → Bool × Partition
  | [] => (true, p)
  | c :: cs =>
    if (p.getColumn c.name).isSome then p.addMissing rows cs
    else
      let r := (p.addColumn c.name c.type).appendZeros p.columns.length c.type.size rows
      if r.1 then r.2.addMissing rows cs else r

/-- Append a value to each column from `i` on; zero for one the row does not name. -/
def appendRow (p : Partition) (values : List TypedColumnValue) :
    List ColumnVector → Nat → Bool × Partition
  | [], _ => (true, p)
  | c :: cs, i =>
    let bits :=
      match values.find? fun v => v.name = c.name with
      | none => some 0
      | some v => if v.type = c.type then v.bits else none
    match bits with
    | none => (false, p)
    | some bits =>
      let r := p.append i c.type.size bits
      if r.2 then r.1.appendRow values cs (i + 1) else (false, r.1)

theorem appendZeros_fixed (p : Partition) (i width n : Nat) :
    (p.appendZeros i width n).2.fixed = p.fixed := by
  induction n generalizing p with
  | zero => rfl
  | succ n ih =>
    unfold appendZeros
    simp only
    split
    · rw [ih, append_fixed]
    · exact append_fixed _ _ _ _

theorem addMissing_fixed (p : Partition) (rows : Nat) (cs : List ColumnDef) :
    (p.addMissing rows cs).2.fixed = p.fixed := by
  induction cs generalizing p with
  | nil => rfl
  | cons c cs ih =>
    unfold addMissing
    simp only
    split
    · exact ih p
    · split
      · rw [ih, appendZeros_fixed, addColumn_fixed]
      · rw [appendZeros_fixed, addColumn_fixed]

theorem appendRow_fixed (p : Partition) (values : List TypedColumnValue) (cs : List ColumnVector)
    (i : Nat) : (p.appendRow values cs i).2.fixed = p.fixed := by
  induction cs generalizing p i with
  | nil => rfl
  | cons c cs ih =>
    unfold appendRow
    simp only
    split
    · rfl
    · split
      · rw [ih, append_fixed]
      · exact append_fixed _ _ _ _

/-- The columns back at the sizes they had; growth stays. -/
def restoreSizes (p : Partition) (sizes : List Nat) : Partition :=
  { p with
    columns := p.columns.mapIdx fun i c => c.setSize (sizes.getD i c.size)
    fits := by
      intro c hc
      obtain ⟨i, hi, rfl⟩ := mem_mapIdx.mp hc
      exact ColumnVector.setSize_fits (p.fits _ (getElem_mem hi)) _
    apart := by
      rw [pairwise_iff_getElem]
      intro i j hi hj hij x
      rw [length_mapIdx] at hi hj
      simp only [getElem_mapIdx, ColumnVector.setSize_owns]
      exact pairwise_iff_getElem.mp p.apart i j hi hj hij x
    handedOut := by
      intro c hc
      obtain ⟨i, hi, rfl⟩ := mem_mapIdx.mp hc
      rw [ColumnVector.setSize_stop]
      exact p.handedOut _ (getElem_mem hi) }

/-- The part of `ingest_typed_row` that writes the row. -/
def addTypedRow (p : Partition) (schema : TableSchema) (values : List TypedColumnValue) :
    Bool × Partition :=
  if schema.columns.all fun c => (p.getColumn c.name).all fun col => col.type = c.type then
    let widened := p.addMissing p.numRows schema.columns
    if widened.1 then
      let written := widened.2.appendRow values widened.2.columns 0
      if written.1 then written
      else (false, written.2.restoreSizes (widened.2.columns.map ColumnVector.size))
    else widened
  else (false, p)

section

variable (p : Partition) (schema : TableSchema) (values : List TypedColumnValue)

theorem addTypedRow_fixed : (p.addTypedRow schema values).2.fixed = p.fixed := by
  unfold addTypedRow
  simp only
  split
  · split
    · split
      · rw [appendRow_fixed, addMissing_fixed]
      · show (appendRow _ _ _ _).2.fixed = _
        rw [appendRow_fixed, addMissing_fixed]
    · exact addMissing_fixed _ _ _
  · rfl

theorem addTypedRow_key : (p.addTypedRow schema values).2.key = p.key :=
  congrArg Prod.fst (p.addTypedRow_fixed schema values)

end

end Partition

def markHasData (reg : SchemaRegistry) (name : String) : SchemaRegistry :=
  match reg.lookup name with
  | some schema => reg.insert name { schema with hasData := true }
  | none => reg

/-- `get` by table id: the name and the schema. -/
def SchemaRegistry.getById (reg : SchemaRegistry) (id : TableId) : Option (String × TableSchema) :=
  (reg.entries.find? fun e => e.2.tableId = id).map fun e => (e.1, e.2)

theorem getById_markHasData {reg : SchemaRegistry} {id : TableId} {name : String}
    {schema : TableSchema} (h : reg.getById id = some (name, schema)) :
    (markHasData reg name).getById id = some (name, { schema with hasData := true }) := by
  obtain ⟨e, hfind, he⟩ := Option.map_eq_some_iff.mp h
  obtain ⟨rfl, rfl⟩ := Prod.mk.inj he
  have hid : e.2.tableId = id := by simpa using (find?_eq_some_iff_append.mp hfind).1
  have hlookup : reg.lookup e.1 = some e.2 := AList.mem_lookup_iff.mpr (mem_of_find?_eq_some hfind)
  unfold markHasData
  rw [hlookup]
  unfold SchemaRegistry.getById
  rw [AList.entries_insert, find?_cons_of_pos (by simpa using hid)]
  rfl

def ingestTypedRow (arenaSize : Fin (2 ^ 32)) (db : Database) (row : TypedRowMessage) :
    Bool × Database :=
  if row.tableId = 0 ∨ row.columns.isEmpty then (false, db)
  else match db.registry.getById row.tableId with
    | none => (false, db)
    | some (name, schema) =>
      if !rowFits schema row.columns then (false, db)
      else
        let bound := bindCodes db.symbolDict row.columns
        let db := { db with symbolDict := bound.2 }
        if !bound.1 then (false, db)
        else
          let written := db.editPartition arenaSize
            ⟨row.tableId, row.symbolId, toHourEpoch row.timestamp⟩
            ⟨fun p => p.addTypedRow schema row.columns, fun p =>
              p.addTypedRow_key schema row.columns⟩
          if written.1 then
            (true, { written.2 with registry := markHasData written.2.registry name })
          else written

end Zepto.Storage
