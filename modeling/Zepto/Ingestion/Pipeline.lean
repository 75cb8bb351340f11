import Zepto.Ingestion.RingBuffer
import Zepto.Lib.Machine
import Zepto.Storage.Contents

/-!
# The ingestion pipeline

`ingest_tick` stamps a tick with the time it was received and pushes it into the ring buffer; if the
push fails it stores the tick at once, with the caller's time. `drain_sync` and the drain threads
pop ticks and store them. A drain thread pops and stores in two steps, with others in between; the
other calls are single steps. The number of its producer on every tick and the list `calls` are not
in the source. Sequence numbers and counters are left out.
-/

namespace Zepto.Ingestion

open Zepto.Lib Zepto.Storage

/-! ## Storing under a memory limit -/

/-- The size of a partition's arena: whole huge pages of 2 MB. -/
def arenaBytes (configured : Nat) : Nat := (configured + 2097151) / 2097152 * 2097152

structure PipelineConfig where
  arenaSizePerPartition : Nat := 33554432
  /-- 0 if there is no limit. -/
  maxMemoryBytes : Nat := 0
  arena_lt : arenaBytes arenaSizePerPartition < 2 ^ 32 := by decide

def PipelineConfig.arenaSize (cfg : PipelineConfig) : Fin (2 ^ 32) := ⟨_, cfg.arena_lt⟩

def oldestPartition (keys : List PartitionKey) : Option PartitionKey :=
  (keys.foldl (fun oldest key =>
    if key.hourEpoch < oldest.1 then (key.hourEpoch, some key) else oldest) (int64Max, none)).2

/-- The partition that the memory limit takes away for a tick of partition `key`. -/
def PipelineConfig.evicted (cfg : PipelineConfig) (keys : List PartitionKey) (key : PartitionKey) :
    Option PartitionKey :=
  if 0 < cfg.maxMemoryBytes ∧ cfg.maxMemoryBytes < keys.length * cfg.arenaSizePerPartition then
    (oldestPartition keys).filter (· ≠ key)
  else none

def evictPartition (db : Database) (key : PartitionKey) : Database :=
  { db with
    partitions := db.partitions.filter fun p => p.key ≠ key
    keys_nodup := db.keys_nodup.sublist (List.filter_sublist.map _) }

def PipelineConfig.storeTick (cfg : PipelineConfig) (db : Database) (msg : TickMessage) :
    Database :=
  let stored := Storage.storeTick cfg.arenaSize db msg
  match cfg.evicted (stored.partitions.map Partition.key) msg.key with
  | some oldest => evictPartition stored oldest
  | none => stored

/-! ## The pipeline -/

structure Tick where
  producer : Nat
  msg : TickMessage
  deriving DecidableEq

structure Pipeline where
  queue : RingBuffer Tick
  db : Database
  /-- The ticks that drain threads have popped and not stored yet, in the order of the pops. -/
  inFlight : List (Nat × Tick)
  calls : List Tick

/-- `resolve_ring_buffer_capacity`, and the ring buffer of that capacity. -/
def newRingBuffer (configured : Nat) : Except String (RingBuffer Tick) :=
  let capacity := if configured = 0 then 65536 else configured
  if h : (capacity ≠ 0 ∧ capacity &&& (capacity - 1) = 0) ∧
      4096 ≤ capacity ∧ capacity ≤ 16 * 1024 * 1024 then
    .ok (.new capacity (Nat.ne_zero_and_sub_one_eq_zero_iff_isPowerOfTwo.mp h.1) (by omega))
  else
    .error ("PipelineConfig::ring_buffer_capacity must be a power of two in " ++
      "[4096, 16777216] (got " ++ toString configured ++ ")")

namespace Pipeline

def new (configured : Nat) (registry : SchemaRegistry) (symbolDict : StringDictionary)
    (views : Views) : Except String Pipeline := do
  let queue ← newRingBuffer configured
  return ⟨queue, ⟨registry, [], symbolDict, views, List.nodup_nil⟩, [], []⟩

/-- `ingest_tick` by a producer at time `now`; whether the push succeeded. -/
def ingestTick (cfg : PipelineConfig) (s : Pipeline) (producer : Nat) (msg : TickMessage)
    (now : Int) : Bool × Pipeline :=
  let tick := ⟨producer, { msg with recvTs := now }⟩
  let pushed := s.queue.tryPush tick
  (pushed.1, { s with
    queue := pushed.2
    db := if pushed.1 then s.db else cfg.storeTick s.db msg
    calls := s.calls ++ [tick] })

/-- `drain_sync`, with the number of ticks it moved. -/
def drainSync (cfg : PipelineConfig) : Nat → Pipeline → Nat × Pipeline
  | 0, s => (0, s)
  | n + 1, s =>
    match s.queue.tryPop with
    | none => (0, s)
    | some (tick, queue) =>
      let r := drainSync cfg n { s with queue, db := cfg.storeTick s.db tick.msg }
      (r.1 + 1, r.2)

/-- A drain thread that has nothing in its hands pops a tick. -/
def take (s : Pipeline) (thread : Nat) : Pipeline :=
  if s.inFlight.any (·.1 = thread) then s
  else
    match s.queue.tryPop with
    | none => s
    | some (tick, queue) => { s with queue, inFlight := s.inFlight ++ [(thread, tick)] }

/-- A drain thread stores the tick in its hands. -/
def put (cfg : PipelineConfig) (s : Pipeline) (thread : Nat) : Pipeline :=
  match s.inFlight.span (·.1 ≠ thread) with
  | (_, []) => s
  | (earlier, (_, tick) :: later) =>
    { s with db := cfg.storeTick s.db tick.msg, inFlight := earlier ++ later }

/-- `stop`: the drain threads end, and what is left is drained. -/
def stop (cfg : PipelineConfig) (s : Pipeline) : Pipeline :=
  (drainSync cfg (2 ^ 64 - 1)
    { s with
      db := s.inFlight.foldl (fun db held => cfg.storeTick db held.2.msg) s.db
      inFlight := [] }).2

end Pipeline

inductive PipelineEvent where
  | ingestTick (producer : Nat) (msg : TickMessage) (now : Int)
  | drainSync (maxItems : Nat)
  | take (thread : Nat)
  | put (thread : Nat)
  | stop

/-- The event is a call after which nothing should be left in the queue. -/
def PipelineEvent.drains : PipelineEvent → Bool
  | drainSync _ | stop => true
  | _ => false

def Pipeline.next (cfg : PipelineConfig) (s : Pipeline) : PipelineEvent → Pipeline
  | .ingestTick producer msg now => (s.ingestTick cfg producer msg now).2
  | .drainSync maxItems => (drainSync cfg maxItems s).2
  | .take thread => s.take thread
  | .put thread => s.put cfg thread
  | .stop => s.stop cfg

def pipelineMachine (cfg : PipelineConfig) : Machine Pipeline PipelineEvent Unit :=
  ⟨fun s e => ((), s.next cfg e)⟩

end Zepto.Ingestion
