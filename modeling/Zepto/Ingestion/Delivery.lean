import Zepto.Ingestion.Pipeline
import Zepto.Storage.RowContents

/-!
# Every tick is stored once, in order

After a call that drains the queue, every partition should hold the ticks of the calls so far, each
once, and those of one producer in order (`Delivered`). This holds as long as no `ingest_tick` finds
its slot taken, no drain thread overtakes another with a tick of the same producer and partition,
and the storage has room (`Orderly`, `ticks_delivered`). A push onto a full ring moves the write
position for good, and the next tick is not found (`full_ring_hides_tick`).
-/

namespace Zepto.Ingestion

open Pipeline List Zepto.Lib Zepto.Storage

section

variable {cfg : PipelineConfig} {db : Database} {ts ts' : List Tick} {s : Pipeline}

/-- Every partition holds the ticks of the calls once, those of a producer in order. -/
def Delivered (s : Pipeline) : Prop :=
  ∀ key, ∃ stored : List Tick,
    s.db.rowsOf key = stored.map (·.msg.row) ∧
    stored.Perm (s.calls.filter fun t => t.msg.key = key) ∧
    ∀ producer, (stored.filter fun t => t.producer = producer) =
      s.calls.filter fun t => t.msg.key = key ∧ t.producer = producer

/-- The keys of the partitions after a tick of partition `key` is stored. -/
def keysWith (db : Database) (key : PartitionKey) : List PartitionKey :=
  let keys := db.partitions.map Partition.key
  if key ∈ keys then keys else keys ++ [key]

/-- The partition's arena has room, and the memory limit takes no partition away. -/
def HasRoom (cfg : PipelineConfig) (db : Database) (msg : TickMessage) : Prop :=
  ((db.partitionFor cfg.arenaSize msg.key).addTickColumns msg).hasRoom = true ∧
    cfg.evicted (keysWith db msg.key) msg.key = none

/-- There is room for each of some ticks when its turn comes. -/
def HasRoomForAll (cfg : PipelineConfig) : Database → List Tick → Prop
  | _, [] => True
  | db, t :: ts => HasRoom cfg db t.msg ∧ HasRoomForAll cfg (cfg.storeTick db t.msg) ts

def Orderly (cfg : PipelineConfig) (s : Pipeline) : PipelineEvent → Prop
  | .ingestTick _ _ _ => s.queue.slots (s.queue.index s.queue.writePos) = none
  | .drainSync maxItems =>
    s.inFlight = [] ∧ s.queue.ready.length ≤ maxItems ∧ HasRoomForAll cfg s.db s.queue.ready
  | .take _ => True
  | .put thread =>
    ∀ earlier held later, s.inFlight = earlier ++ held :: later → held.1 = thread →
      HasRoom cfg s.db held.2.msg ∧
        ∀ e ∈ earlier, ¬(e.2.msg.key = held.2.msg.key ∧ e.2.producer = held.2.producer)
  | .stop => HasRoomForAll cfg s.db (s.inFlight.map (·.2) ++ s.queue.ready)

/-! ## Storing -/

def storeAll (cfg : PipelineConfig) (db : Database) (ts : List Tick) : Database :=
  ts.foldl (fun db t => cfg.storeTick db t.msg) db

def rowsIn (ts : List Tick) (key : PartitionKey) : List TickRow :=
  (ts.filter fun t => t.msg.key = key).map (·.msg.row)

theorem keys_storeTick (arenaSize : Fin (2 ^ 32)) (db : Database) (msg : TickMessage) :
    (storeTick arenaSize db msg).partitions.map Partition.key = keysWith db msg.key := by
  unfold keysWith
  show (db.editPartition arenaSize msg.key _).2.partitions.map Partition.key = _
  unfold Database.editPartition
  split
  next r h =>
    obtain ⟨p, hp, -⟩ := Database.find?_editIn h
    have hmem : msg.key ∈ db.partitions.map Partition.key := by
      have hkey : p.key = msg.key := by simpa using find?_some hp
      exact hkey ▸ mem_map_of_mem (mem_of_find?_eq_some hp)
    rw [if_pos hmem]
    exact editIn_keys h
  next h =>
    rw [if_neg (key_notMem_of_editIn h)]
    simp only [map_append, map_singleton, Partition.addTick_key]
    rfl

theorem HasRoom.storeTick_eq {msg : TickMessage} (h : HasRoom cfg db msg) :
    cfg.storeTick db msg = storeTick cfg.arenaSize db msg := by
  unfold PipelineConfig.storeTick
  simp [keys_storeTick, h.2]

theorem holdsTicks_storeTick {t : Tick} (h : db.HoldsTicks (rowsIn ts))
    (hroom : HasRoom cfg db t.msg) : (cfg.storeTick db t.msg).HoldsTicks (rowsIn (ts ++ [t])) := by
  have hstored := h.storeTick hroom.1
  rw [← hroom.storeTick_eq] at hstored
  have hrows : rowsIn (ts ++ [t]) = fun k =>
      if k = t.msg.key then rowsIn ts k ++ [t.msg.row] else rowsIn ts k := by
    funext k
    unfold rowsIn
    rw [filter_append, map_append]
    split_ifs with hk
    · rw [filter_cons_of_pos (by simp [hk])]
      rfl
    · rw [filter_cons_of_neg (by simpa using Ne.symm hk)]
      simp
  rwa [hrows]

theorem holdsTicks_storeAll (h : db.HoldsTicks (rowsIn ts)) (hroom : HasRoomForAll cfg db ts') :
    (storeAll cfg db ts').HoldsTicks (rowsIn (ts ++ ts')) := by
  induction ts' generalizing db ts with
  | nil => rwa [append_nil]
  | cons t ts' ih =>
    rw [append_cons]
    exact ih (holdsTicks_storeTick h hroom.1) hroom.2

theorem hasRoomForAll_append : HasRoomForAll cfg db (ts ++ ts') ↔
      HasRoomForAll cfg db ts ∧ HasRoomForAll cfg (storeAll cfg db ts) ts' := by
  induction ts generalizing db with
  | nil => exact ⟨fun h => ⟨trivial, h⟩, (·.2)⟩
  | cons t ts ih =>
    show HasRoom cfg db t.msg ∧ HasRoomForAll cfg _ (ts ++ ts') ↔ _
    rw [ih, ← and_assoc]
    rfl

/-- A drain that may take all of the queue stores all of it. -/
theorem drainSync_of_holds (cfg : PipelineConfig) {q : List Tick} {n : Nat} (h : s.queue.Holds q)
    (hn : q.length ≤ n) : ∃ queue : RingBuffer Tick, (drainSync cfg n s).2 =
        { s with queue, db := storeAll cfg s.db q } ∧ queue.Holds [] ∧
      queue.capacity = s.queue.capacity ∧ queue.writePos = s.queue.writePos ∧
      queue.readPos = s.queue.readPos + q.length := by
  induction q generalizing s n with
  | nil =>
    refine ⟨s.queue, ?_, h, rfl, rfl, rfl⟩
    cases n with
    | zero => rfl
    | succ n =>
      rw [drainSync, RingBuffer.tryPop_nil h]
      rfl
  | cons t q ih =>
    cases n with
    | zero => cases hn
    | succ n =>
      obtain ⟨r, hpop, hholds, hcap, hwrite, hread⟩ := RingBuffer.tryPop_cons h
      obtain ⟨queue, hdrain, hempty, hcap', hwrite', hread'⟩ :=
        ih (s := { s with queue := r, db := cfg.storeTick s.db t.msg }) hholds
          (Nat.le_of_succ_le_succ hn)
      refine ⟨queue, ?_, hempty, hcap'.trans hcap, hwrite'.trans hwrite, ?_⟩
      · rw [drainSync, hpop]
        exact hdrain
      · rw [hread']
        rw [hread, length_cons]
        omega

/-! ## The invariant -/

/-- The ticks of the calls are stored, held by a drain thread or queued, and those of one producer
and partition are in order. -/
structure InOrder (s : Pipeline) (stored q : List Tick) : Prop where
  holds : s.queue.Holds q
  aligned : s.queue.Aligned q
  rows : s.db.HoldsTicks (rowsIn stored)
  calls : ∀ key producer,
    (s.calls.filter fun t => t.msg.key = key ∧ t.producer = producer) =
      (stored ++ s.inFlight.map (·.2) ++ q).filter fun t =>
        t.msg.key = key ∧ t.producer = producer

theorem filter_and_eq (l : List Tick) (key : PartitionKey) (producer : Nat) :
    ((l.filter fun t => t.msg.key = key).filter fun t => t.producer = producer) =
      l.filter fun t => t.msg.key = key ∧ t.producer = producer := by
  rw [filter_filter]
  simp [and_comm]

theorem perm_of_producers {l l' : List Tick}
    (h : ∀ producer, (l.filter fun t => t.producer = producer) =
      l'.filter fun t => t.producer = producer) : l.Perm l' := by
  rw [perm_iff_count]
  intro t
  have hcount : ∀ l : List Tick, (l.filter fun u => u.producer = t.producer).count t = l.count t :=
    fun l => count_filter (by simp)
  rw [← hcount l, ← hcount l', h]

theorem InOrder.delivered {s : Pipeline} {stored : List Tick} (h : InOrder s stored [])
    (hflight : s.inFlight = []) : Delivered s := by
  intro key
  have horder : ∀ producer, ((stored.filter fun t => t.msg.key = key).filter fun t =>
      t.producer = producer) = s.calls.filter fun t => t.msg.key = key ∧ t.producer = producer := by
    intro producer
    rw [filter_and_eq, h.calls, hflight, map_nil, append_nil, append_nil]
  refine ⟨stored.filter fun t => t.msg.key = key, h.rows.rowsOf key, ?_, horder⟩
  refine perm_of_producers fun producer => ?_
  rw [horder, filter_and_eq]

end

/-! ## Steps -/

section Steps

variable {cfg : PipelineConfig} {s : Pipeline} {stored q : List Tick}

variable (h : InOrder s stored q)

include h

theorem InOrder.ingestTick {producer : Nat} {msg : TickMessage} {now : Int}
    (hempty : s.queue.slots (s.queue.index s.queue.writePos) = none) :
    InOrder (s.ingestTick cfg producer msg now).2 stored
      (q ++ [⟨producer, { msg with recvTs := now }⟩]) := by
  obtain ⟨r, hpush, hholds, haligned, -⟩ :=
    RingBuffer.tryPush_of_empty (x := ⟨producer, { msg with recvTs := now }⟩) h.holds h.aligned
      hempty
  unfold Pipeline.ingestTick
  simp only [hpush]
  refine ⟨hholds, haligned, h.rows, fun key producer' => ?_⟩
  rw [filter_append, h.calls, ← append_assoc, ← filter_append]

theorem InOrder.take (thread : Nat) : ∃ q', InOrder (s.take thread) stored q' := by
  unfold Pipeline.take
  split
  · exact ⟨q, h⟩
  cases q with
  | nil =>
    rw [RingBuffer.tryPop_nil h.holds]
    exact ⟨[], h⟩
  | cons t q =>
    obtain ⟨r, hpop, hholds, -, hwrite, hread⟩ := RingBuffer.tryPop_cons h.holds
    rw [hpop]
    refine ⟨q, hholds, ?_, h.rows, fun key producer => ?_⟩
    · show r.writePos = r.readPos + q.length
      rw [hwrite, h.aligned, length_cons]
      omega
    · rw [h.calls]
      simp

/-- Storing a tick that no held tick of its producer and partition precedes keeps the order. -/
theorem InOrder.put {thread : Nat} (hstep : Orderly cfg s (.put thread)) :
    ∃ stored', InOrder (s.put cfg thread) stored' q := by
  unfold Pipeline.put
  split
  · exact ⟨stored, h⟩
  rename_i earlier held tick later hspan
  have hsplit : s.inFlight = earlier ++ (held, tick) :: later := by
    rw [span_eq_takeWhile_dropWhile] at hspan
    obtain ⟨rfl, hdrop⟩ := Prod.mk.inj hspan
    rw [← hdrop, takeWhile_append_dropWhile]
  have hthread : held = thread := by
    rw [span_eq_takeWhile_dropWhile] at hspan
    have hdrop := (Prod.mk.inj hspan).2
    have hhead := head?_dropWhile_not (fun e : Nat × Tick => decide (e.1 ≠ thread)) s.inFlight
    rw [hdrop] at hhead
    simpa using hhead
  obtain ⟨hroom, hfirst⟩ := hstep earlier (held, tick) later hsplit hthread
  refine ⟨stored ++ [tick], h.holds, h.aligned, holdsTicks_storeTick h.rows hroom, ?_⟩
  intro key producer
  rw [h.calls, hsplit]
  simp only [map_append, map_cons, filter_append, append_assoc]
  by_cases ht : tick.msg.key = key ∧ tick.producer = producer
  · have hnone : ((earlier.map (·.2)).filter fun t => t.msg.key = key ∧ t.producer = producer) =
        [] := by
      rw [filter_eq_nil_iff]
      intro t hmem
      obtain ⟨e, he, rfl⟩ := mem_map.mp hmem
      have := hfirst e he
      rw [← ht.1, ← ht.2]
      simpa using this
    rw [hnone, filter_cons_of_pos (by simpa using ht), filter_cons_of_pos (by simpa using ht)]
    rfl
  · rw [filter_cons_of_neg (by simpa using ht), filter_cons_of_neg (by simpa using ht)]
    rfl

theorem InOrder.drainSync {maxItems : Nat} (hflight : s.inFlight = []) (hmax : q.length ≤ maxItems)
    (hroom : HasRoomForAll cfg s.db q) :
    InOrder (drainSync cfg maxItems s).2 (stored ++ q) [] ∧
      (drainSync cfg maxItems s).2.inFlight = [] := by
  obtain ⟨queue, hdrain, hempty, -, hwrite, hread⟩ := drainSync_of_holds cfg h.holds hmax
  rw [hdrain]
  refine ⟨⟨hempty, ?_, holdsTicks_storeAll h.rows hroom, fun key producer => ?_⟩, hflight⟩
  · show queue.writePos = queue.readPos + 0
    rw [hwrite, hread, h.aligned]
    rfl
  · rw [h.calls]
    simp [hflight]

theorem InOrder.stop (hroom : HasRoomForAll cfg s.db (s.inFlight.map (·.2) ++ q)) :
    InOrder (s.stop cfg) (stored ++ s.inFlight.map (·.2) ++ q) [] ∧ (s.stop cfg).inFlight = [] := by
  obtain ⟨hheld, hqueue⟩ := hasRoomForAll_append.mp hroom
  have hfold : s.inFlight.foldl (fun db held => cfg.storeTick db held.2.msg) s.db =
      storeAll cfg s.db (s.inFlight.map (·.2)) := by
    rw [storeAll, foldl_map]
  have hlen : q.length ≤ 2 ^ 64 - 1 := by
    have := h.holds.length_le
    have := s.queue.capacity_lt
    omega
  have hjoined : InOrder { s with db := storeAll cfg s.db (s.inFlight.map (·.2)), inFlight := [] }
      (stored ++ s.inFlight.map (·.2)) q := by
    refine ⟨h.holds, h.aligned, holdsTicks_storeAll h.rows hheld, fun key producer => ?_⟩
    rw [h.calls, map_nil, append_nil]
  unfold Pipeline.stop
  rw [hfold]
  exact hjoined.drainSync rfl hlen hqueue

theorem InOrder.next {e : PipelineEvent} (hstep : Orderly cfg s e) :
    ∃ stored' q', InOrder (s.next cfg e) stored' q' ∧
      (e.drains → q' = [] ∧ (s.next cfg e).inFlight = []) := by
  cases e with
  | ingestTick producer msg now => exact ⟨_, _, h.ingestTick hstep, nofun⟩
  | drainSync maxItems =>
    obtain ⟨hflight, hmax, hroom⟩ := hstep
    rw [RingBuffer.ready_of_holds h.holds] at hmax hroom
    obtain ⟨hin, hout⟩ := h.drainSync hflight hmax hroom
    exact ⟨_, _, hin, fun _ => ⟨rfl, hout⟩⟩
  | take thread =>
    obtain ⟨q', h'⟩ := h.take thread
    exact ⟨_, q', h', nofun⟩
  | put thread =>
    obtain ⟨stored', h'⟩ := h.put hstep
    exact ⟨stored', q, h', nofun⟩
  | stop =>
    have hroom : HasRoomForAll cfg s.db (s.inFlight.map (·.2) ++ s.queue.ready) := hstep
    rw [RingBuffer.ready_of_holds h.holds] at hroom
    obtain ⟨hin, hout⟩ := h.stop hroom
    exact ⟨_, _, hin, fun _ => ⟨rfl, hout⟩⟩

end Steps

/-! ## Runs -/

variable {configured : Nat}

theorem newRingBuffer_empty {r : RingBuffer Tick}
    (h : newRingBuffer configured = .ok r) : r.Holds [] ∧ r.Aligned [] := by
  unfold newRingBuffer at h
  extract_lets capacity at h
  split at h
  · cases h
    exact ⟨⟨Nat.zero_le _, fun _ _ => rfl⟩, rfl⟩
  · cases h

theorem inOrder_new {registry : SchemaRegistry} {symbolDict : StringDictionary}
    {views : Views} {s : Pipeline}
    (h : new configured registry symbolDict views = .ok s) : InOrder s [] [] := by
  unfold new at h
  cases hr : newRingBuffer configured with
  | error message =>
    rw [hr] at h
    cases h
  | ok r =>
    rw [hr] at h
    cases h
    obtain ⟨hholds, haligned⟩ := newRingBuffer_empty hr
    exact ⟨hholds, haligned, fun _ => rfl, fun _ _ => rfl⟩

theorem ticks_delivered (cfg : PipelineConfig) {registry : SchemaRegistry}
    {symbolDict : StringDictionary} {views : Views} {s : Pipeline}
    (hs : new configured registry symbolDict views = .ok s)
    {events : List PipelineEvent} {e : PipelineEvent} (he : e.drains = true)
    (hrun : (pipelineMachine cfg).Admits (Orderly cfg) s (events ++ [e])) :
    Delivered ((pipelineMachine cfg).run s (events ++ [e])) := by
  rw [Machine.admits_append] at hrun
  obtain ⟨hevents, hlast, -⟩ := hrun
  have hinv : ∃ stored q, InOrder ((pipelineMachine cfg).run s events) stored q := by
    refine Machine.invariant_admits _ (P := fun s => ∃ stored q, InOrder s stored q) ?_
      ⟨[], [], inOrder_new hs⟩ hevents
    rintro s e ⟨stored, q, h⟩ hstep
    obtain ⟨stored', q', h', -⟩ := h.next hstep
    exact ⟨stored', q', h'⟩
  obtain ⟨stored, q, h⟩ := hinv
  obtain ⟨stored', q', h', hdrained⟩ := h.next hlast
  obtain ⟨rfl, hflight⟩ := hdrained he
  rw [Machine.run_append]
  exact h'.delivered hflight

def smallPipeline : Pipeline :=
  ⟨.new 4096 ⟨12, rfl⟩ (by decide), ⟨∅, [], {}, ∅, nodup_nil⟩, [], []⟩

def tickOf (symbolId : SymbolId) : TickMessage :=
  { recvTs := 0, symbolId, price := 100, volume := 1 }

theorem one_tick_delivered : Pipeline.new 4096 ∅ {} ∅ = .ok smallPipeline ∧
      Delivered ((pipelineMachine {}).run smallPipeline
        ([.ingestTick 0 (tickOf 1) 0] ++ [.drainSync 10])) := by
  have hnew : new 4096 ∅ {} ∅ = .ok smallPipeline := rfl
  refine ⟨hnew, ticks_delivered {} hnew rfl ?_⟩
  exact ⟨rfl, ⟨rfl, by decide, ⟨by decide +kernel, by decide +kernel⟩, trivial⟩, trivial⟩

/-! ## A full ring -/

section FullRing

variable {cfg : PipelineConfig} {s : Pipeline} {msg : TickMessage}

def stamped (msg : TickMessage) (now : Int) : Tick := ⟨0, { msg with recvTs := now }⟩

theorem ingestTick_of_pushed {r : RingBuffer Tick} {now : Int}
    (h : s.queue.tryPush (stamped msg now) = (true, r)) :
    (s.ingestTick cfg 0 msg now).2 =
      { s with queue := r, calls := s.calls ++ [stamped msg now] } := by
  show mk _ _ _ _ = _
  rw [show s.queue.tryPush ⟨0, { msg with recvTs := now }⟩ = (true, r) from h]
  rfl

/-- Pushes up to the capacity fill the ring and do nothing else. -/
theorem run_fill (cfg : PipelineConfig) (msg : TickMessage) (now : Int) {m n : Nat}
    (h : s.queue.Holds (replicate m (stamped msg now)))
    (ha : s.queue.Aligned (replicate m (stamped msg now)))
    (hroom : m + n ≤ s.queue.capacity) :
    ∃ queue, (pipelineMachine cfg).run s (replicate n (.ingestTick 0 msg now)) =
        { s with queue, calls := s.calls ++ replicate n (stamped msg now) } ∧
      queue.Holds (replicate (m + n) (stamped msg now)) ∧
      queue.Aligned (replicate (m + n) (stamped msg now)) ∧ queue.capacity = s.queue.capacity := by
  induction n generalizing s m with
  | zero =>
    refine ⟨s.queue, ?_, h, ha, rfl⟩
    simp [Machine.run]
  | succ n ih =>
    have hempty := RingBuffer.slot_at_writePos h ha (by rw [length_replicate]; omega)
    obtain ⟨r, hpush, hholds, haligned, hcap⟩ :=
      RingBuffer.tryPush_of_empty (x := stamped msg now) h ha hempty
    rw [← replicate_succ'] at hholds haligned
    obtain ⟨queue, hrun, hholds', haligned', hcap'⟩ :=
      ih (s := { s with queue := r, calls := s.calls ++ [stamped msg now] }) hholds haligned
        (by show m + 1 + n ≤ r.capacity; omega)
    have hsum : m + 1 + n = m + (n + 1) := by omega
    rw [hsum] at hholds' haligned'
    refine ⟨queue, ?_, hholds', haligned', hcap'.trans hcap⟩
    show (pipelineMachine cfg).run (s.ingestTick cfg 0 msg now).2 _ = _
    rw [ingestTick_of_pushed hpush, hrun, replicate_succ]
    simp

theorem partitionAt_storeAll (hlimit : cfg.maxMemoryBytes = 0) {db : Database} {ts : List Tick}
    {key : PartitionKey} (h : ∀ t ∈ ts, t.msg.key ≠ key) :
    (storeAll cfg db ts).partitionAt key = db.partitionAt key := by
  induction ts generalizing db with
  | nil => rfl
  | cons t ts ih =>
    rw [forall_mem_cons] at h
    have hstore : cfg.storeTick db t.msg = storeTick cfg.arenaSize db t.msg := by
      unfold PipelineConfig.storeTick PipelineConfig.evicted
      simp [hlimit]
    show (storeAll cfg (cfg.storeTick db t.msg) ts).partitionAt key = _
    rw [ih h.2, hstore, Database.partitionAt_storeTick, if_neg (symm h.1)]

/-- A call that finds the ring full stores its tick and moves the write position. -/
theorem ingestTick_of_full {q : List Tick} (h : s.queue.Holds q) (ha : s.queue.Aligned q)
    (hfull : q.length = s.queue.capacity) (now : Int) :
    (s.ingestTick cfg 0 msg now).2 = { s with
        queue := { s.queue with writePos := s.queue.writePos + 1 }
        db := cfg.storeTick s.db msg
        calls := s.calls ++ [stamped msg now] } := by
  have hslot := RingBuffer.slot_of_full h ha hfull
  have hpos := s.queue.capacity_pos
  rw [getElem?_eq_getElem (by omega)] at hslot
  unfold ingestTick RingBuffer.tryPush
  rw [hslot]
  rfl

theorem drainSync_of_none (h : s.queue.tryPop = none) (n : Nat) : (drainSync cfg n s).2 = s := by
  cases n with
  | zero => rfl
  | succ n => rw [drainSync, h]

/-- A push onto a full ring, a drain, and the next tick is out of sight. -/
theorem run_overflow (cfg : PipelineConfig) {q : List Tick} (h : s.queue.Holds q)
    (ha : s.queue.Aligned q) (hfull : q.length = s.queue.capacity) (hcap : 2 ≤ s.queue.capacity)
    (msg last : TickMessage) (now : Int) :
    ∃ queue, (pipelineMachine cfg).run s [.ingestTick 0 msg now, .drainSync (2 ^ 64 - 1),
        .ingestTick 0 last now, .drainSync (2 ^ 64 - 1)] =
      { s with
        queue
        db := storeAll cfg (cfg.storeTick s.db msg) q
        calls := s.calls ++ [stamped msg now] ++ [stamped last now] } := by
  have hlen : q.length ≤ 2 ^ 64 - 1 := by
    have := s.queue.capacity_lt
    omega
  show ∃ queue, (drainSync cfg _ (ingestTick cfg (drainSync cfg _
    (s.ingestTick cfg 0 msg now).2).2 0 last now).2).2 = _
  rw [ingestTick_of_full h ha hfull]
  generalize hs : mk _ _ _ _ = s2
  have hholds : s2.queue.Holds q := by
    rw [← hs]
    exact ⟨h.length_le, h.slots⟩
  obtain ⟨r, hdrain, hempty, hrcap, hwrite, hread⟩ := drainSync_of_holds cfg hholds hlen
  rw [hdrain]
  have hskew : r.writePos = r.readPos + 1 := by
    rw [hwrite, hread, ← hs]
    rw [ha]
  have hrcap : 2 ≤ r.capacity := by
    rw [hrcap, ← hs]
    exact hcap
  obtain ⟨r', hpush, hpop⟩ := RingBuffer.tryPop_of_skewed (x := stamped last now) hempty hskew hrcap
  rw [ingestTick_of_pushed (s := { s2 with queue := r, db := _ }) hpush,
    drainSync_of_none (s := { s2 with queue := r', db := _, calls := _ }) hpop, ← hs]
  exact ⟨r', rfl⟩

end FullRing

theorem full_ring_hides_tick : Pipeline.new 4096 ∅ {} ∅ = .ok smallPipeline ∧
      ¬Delivered ((pipelineMachine {}).run smallPipeline
        (List.replicate 4096 (.ingestTick 0 (tickOf 1) 0) ++ [.ingestTick 0 (tickOf 1) 0,
          .drainSync (2 ^ 64 - 1), .ingestTick 0 (tickOf 2) 0, .drainSync (2 ^ 64 - 1)])) := by
  have hnew : new 4096 ∅ {} ∅ = .ok smallPipeline := rfl
  have hstart := inOrder_new hnew
  obtain ⟨r, hrun, hholds, haligned, hcap⟩ :=
    run_fill {} (tickOf 1) 0 (m := 0) (n := 4096) hstart.holds hstart.aligned (Nat.le_refl 4096)
  rw [Machine.run_append, hrun]
  obtain ⟨queue, hover⟩ := run_overflow {} (s := { smallPipeline with queue := r, calls := _ })
    hholds haligned (by rw [length_replicate]; exact hcap.symm) (by rw [hcap]; decide)
    (tickOf 1) (tickOf 2) 0
  rw [hover]
  refine ⟨hnew, fun hdelivered => ?_⟩
  -- The partition of the second symbol was never made.
  obtain ⟨stored, hrows, hperm, -⟩ := hdelivered (tickOf 2).key
  have hnone : (storeAll {} (PipelineConfig.storeTick {} smallPipeline.db (tickOf 1))
      (replicate 4096 (stamped (tickOf 1) 0))).partitionAt (tickOf 2).key = none := by
    rw [partitionAt_storeAll rfl fun t ht => by rw [eq_of_mem_replicate ht]; decide]
    show (storeAll {} smallPipeline.db [stamped (tickOf 1) 0]).partitionAt _ = none
    rfl
  have hempty : stored = [] := by
    simp only [Database.rowsOf_of_none hnone] at hrows
    exact map_eq_nil_iff.mp hrows.symm
  rw [hempty, nil_perm, filter_eq_nil_iff] at hperm
  exact hperm (stamped (tickOf 2) 0) (mem_append_right _ mem_cons_self) (by decide)

end Zepto.Ingestion
