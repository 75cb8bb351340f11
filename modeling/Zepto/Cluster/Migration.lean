import Zepto.Lib.Machine
import Zepto.Sql.Ddl
import Zepto.Storage.Ingest

/-!
# Moving a symbol to another node

One move of `PartitionMigrator`: `execute_move` lets the router send ticks to both nodes, copies the
rows of the symbol with a `SELECT` at the source and a batch to the destination, and commits or
rolls back. Each `ingest_tick` asks the router for a migration, then for the owner if there is none,
and sends its tick once or twice. All these steps interleave freely; what a node does with a request
comes with the event. A tick of a table goes where table and symbol hash to, which a move of the
symbol does not change. Two things are not in the code: `ingested` lists the ticks that calls have
left at a node, and a phase says whether the copy is `clean`.
-/

namespace Zepto.Cluster

open Zepto.Lib Zepto.Storage Zepto.Sql

inductive MoveState where
  | pending
  | dualWrite
  | copying
  | committed
  | failed
  deriving DecidableEq

/-- `MoveStatus`, without the move. -/
structure MoveStatus where
  state : MoveState := .pending
  error : String := ""
  rowsMigrated : Nat := 0
  attempts : Nat := 0
  deriving DecidableEq

inductive Side where
  | source
  | dest
  | elsewhere
  deriving DecidableEq

structure MigratorConfig where
  maxRetries : Nat := 3
  /-- 0 for no timeout. -/
  moveTimeoutSec : Nat := 300
  /-- The tables whose rows a query of `trades` reads. -/
  inTrades : TableId → Bool
  /-- Where `route(table_id, symbol)` leads for the tables other than 0. -/
  home : TableId → Side := fun _ => .source

/-! ## The rows of the symbol at a node -/

/-- A symbol's rows in the partitions of a node, and its ticks in the ring buffer. -/
structure RowStore where
  stored : List TickMessage := []
  queued : List TickMessage := []
  deriving DecidableEq

namespace RowStore

def rows (n : RowStore) : List TickMessage := n.stored ++ n.queued

/-- `ingest_tick` of the pipeline, which stamps the tick. -/
def ingest (n : RowStore) (msg : TickMessage) (now : Int) : RowStore :=
  { n with queued := n.queued ++ [{ msg with recvTs := now }] }

/-- At most so many ticks leave the ring buffer. -/
def drain (n : RowStore) (maxItems : Nat) : RowStore :=
  ⟨n.stored ++ n.queued.take maxItems, n.queued.drop maxItems⟩

/-- The answer to a `WAL_REPLICATE`. -/
def applyBatch (n : RowStore) (batch : List TickMessage) (now : Nat → Int) : RowStore :=
  let queued := n.queued ++ batch.mapIdx fun i msg => { msg with recvTs := now i }
  drain ⟨n.stored, queued⟩ (batch.length + 100)

/-- `DELETE FROM trades WHERE symbol = ...`, blind to the ring buffer. -/
def deleteTrades (cfg : MigratorConfig) (n : RowStore) : RowStore :=
  { n with stored := n.stored.filter fun msg => !cfg.inTrades msg.tableId }

end RowStore

/-- What a row tells besides the time at which its node received it. -/
structure RowContent where
  inTrades : Bool
  price : Int
  volume : Int
  msgType : BitVec 8
  priceIsFloat : Bool
  deriving DecidableEq

def MigratorConfig.content (cfg : MigratorConfig) (msg : TickMessage) : RowContent :=
  ⟨cfg.inTrades msg.tableId, msg.price, msg.volume, msg.msgType, msg.priceIsFloat⟩

/-- The message `migrate_symbol` makes of a row. -/
def copyRow (row : TickMessage) : TickMessage :=
  { recvTs := row.recvTs, symbolId := row.symbolId, price := row.price, volume := row.volume,
    tableId := stableTableId "trades" }

/-- The `SELECT` finds the row, and the copy loses only its time. -/
def copyable (cfg : MigratorConfig) (row : TickMessage) : Bool :=
  cfg.inTrades row.tableId && cfg.inTrades (stableTableId "trades") && row.msgType = 0 &&
    !row.priceIsFloat

inductive Answer where
  | notApplied
  | unacked
  | acked
  deriving DecidableEq

namespace Answer

def applied : Answer → Bool
  | .notApplied => false
  | .unacked | .acked => true

def ok : Answer → Bool
  | .acked => true
  | _ => false

end Answer

inductive IngestCall where
  /-- There was no migration; the owner comes next. -/
  | checked (msg : TickMessage)
  | routed (owner : Side) (msg : TickMessage)
  /-- There was a migration; both sends come next. -/
  | dual (msg : TickMessage)
  | halfway (answerFrom : Answer) (msg : TickMessage)
  deriving DecidableEq

/-- The tick of a call that is at the source and yet to be sent to the destination. -/
def IngestCall.halfDone : IngestCall → Option TickMessage
  | .halfway answerFrom msg => if answerFrom.applied then some msg else none
  | _ => none

/-! ## The move -/

/-- How far `execute_move` is. -/
inductive MovePhase where
  | idle
  | begun
  | selected (batch : List TickMessage) (clean : Bool)
  | copied (ok : Bool) (rows : Nat) (clean : Bool)
  | rolledBack
  deriving DecidableEq

/-- A tick goes to the source alone. -/
def MovePhase.spoil : MovePhase → MovePhase
  | .selected batch _ => .selected batch false
  | .copied ok rows _ => .copied ok rows false
  | phase => phase

structure Migration where
  source : RowStore
  dest : RowStore := {}
  /-- All other nodes. -/
  elsewhere : RowStore := {}
  /-- The symbol is in `migrating_`. -/
  migrating : Bool := false
  /-- The symbol is pinned to the destination. -/
  pinned : Bool := false
  status : MoveStatus := {}
  phase : MovePhase := .idle
  /-- The attempt has timed out and its copy still runs. -/
  timedOut : Bool := false
  calls : List IngestCall := []
  ingested : List TickMessage
  deriving DecidableEq

inductive MigrationEvent where
  /-- `execute_move` starts, for the first time or as a retry. -/
  | start
  | select (ok : Bool)
  | replicate (answer : Answer) (now : Nat → Int)
  | timeout
  /-- The result of the copy is looked at; `deleted` is for the `DELETE` of a rollback. -/
  | finish (deleted : Bool)
  | abort
  | call (msg : TickMessage)
  /-- Call number `i` takes its next step. -/
  | advance (i : Nat) (answer : Answer) (now : Int)
  | drain (side : Side) (maxItems : Nat)

namespace Migration

variable (cfg : MigratorConfig) (s : Migration)

def new (source dest : RowStore) : Migration :=
  { source := source, dest := dest, ingested := source.rows }

def halfDone : List TickMessage := s.calls.filterMap IngestCall.halfDone

/-- The `SELECT` sees exactly the rows that the destination neither has nor is about to be sent. -/
def isClean : Bool :=
  s.source.stored.all (copyable cfg) &&
    ((s.dest.rows ++ s.halfDone).map cfg.content).isPerm (s.source.queued.map cfg.content)

def start : Migration :=
  if s.status.state ≠ .committed ∧ s.phase = .idle ∧ s.status.attempts < cfg.maxRetries then
    { s with
      status := { s.status with attempts := s.status.attempts + 1, state := .copying }
      migrating := true
      phase := .begun }
  else s

/-- The first half of `migrate_symbol`. -/
def select (ok : Bool) : Migration :=
  match s.phase with
  | .begun =>
    if !ok then { s with phase := .copied false 0 false }
    else
      let rows := s.source.stored.filter fun row => cfg.inTrades row.tableId
      if rows.isEmpty then { s with phase := .copied true 0 (s.isClean cfg) }
      else { s with phase := .selected (rows.map copyRow) (s.isClean cfg) }
  | _ => s

/-- The second half of `migrate_symbol`. -/
def replicate (answer : Answer) (now : Nat → Int) : Migration :=
  match s.phase with
  | .selected batch clean =>
    { s with
      dest := if answer.applied then s.dest.applyBatch batch now else s.dest
      phase := .copied answer.ok (if answer.ok then batch.length else 0) clean }
  | _ => s

def isCopying : Bool :=
  match s.phase with
  | .begun | .selected _ _ => true
  | _ => false

/-- `wait_for` gives up; the copy goes on, as the future's destructor waits for it. -/
def timeout : Migration :=
  if 0 < cfg.moveTimeoutSec ∧ s.isCopying ∧ s.timedOut = false then
    { s with
      status := { s.status with
        state := .failed
        error := "move timed out after " ++ toString cfg.moveTimeoutSec ++ "s" }
      migrating := false
      timedOut := true }
  else s

/-- The end of `execute_move` up to the rollback. -/
def finish (deleted : Bool) : Migration :=
  match s.phase with
  | .copied ok rows _ =>
    if s.timedOut then { s with phase := .idle, timedOut := false }
    else if ok then
      { s with
        status := { s.status with state := .committed, rowsMigrated := rows, error := "" }
        pinned := true
        migrating := false
        phase := .idle }
    else
      { s with
        dest := if deleted then s.dest.deleteTrades cfg else s.dest
        phase := .rolledBack }
  | _ => s

def abort : Migration :=
  match s.phase with
  | .rolledBack =>
    { s with
      status := { s.status with
        state := .failed
        error := "migrate_symbol failed (attempt " ++ toString s.status.attempts ++ ")" }
      migrating := false
      phase := .idle }
  | _ => s

/-- The first step of `ingest_tick`. -/
def call (msg : TickMessage) : Migration :=
  { s with calls := s.calls ++ [if s.migrating then .dual msg else .checked msg] }

def deliver (side : Side) (msg : TickMessage) (answer : Answer) (now : Int) : Migration :=
  if answer.applied then
    match side with
    | .source => { s with source := s.source.ingest msg now }
    | .dest => { s with dest := s.dest.ingest msg now }
    | .elsewhere => { s with elsewhere := s.elsewhere.ingest msg now }
  else s

/-- `route(table_id, symbol)`: only table 0 has the symbol itself for its key, which is pinned. -/
def owner (msg : TickMessage) : Side :=
  if msg.tableId ≠ 0 then cfg.home msg.tableId else if s.pinned then .dest else .source

def endCall (i : Nat) (msg : TickMessage) (applied : Bool) : Migration :=
  { s with
    calls := s.calls.eraseIdx i
    ingested := if applied then s.ingested ++ [msg] else s.ingested }

def advance (i : Nat) (answer : Answer) (now : Int) : Migration :=
  match s.calls[i]? with
  | none => s
  | some (.checked msg) =>
    { s with calls := s.calls.set i (.routed (s.owner cfg msg) msg) }
  | some (.routed .source msg) =>
    let phase := if answer.applied then s.phase.spoil else s.phase
    { (s.deliver .source msg answer now).endCall i msg answer.applied with phase := phase }
  | some (.routed side msg) =>
    (s.deliver side msg answer now).endCall i msg answer.applied
  | some (.dual msg) =>
    { s.deliver .source msg answer now with calls := s.calls.set i (.halfway answer msg) }
  | some (.halfway answerFrom msg) =>
    (s.deliver .dest msg answer now).endCall i msg (answerFrom.applied || answer.applied)

def returned (i : Nat) (answer : Answer) : Option Bool :=
  match s.calls[i]? with
  | some (.routed _ _) => some answer.ok
  | some (.halfway answerFrom _) => some (answerFrom.ok || answer.ok)
  | _ => none

def drain (side : Side) (maxItems : Nat) : Migration :=
  match side with
  | .source => { s with source := s.source.drain maxItems }
  | .dest => { s with dest := s.dest.drain maxItems }
  | .elsewhere => { s with elsewhere := s.elsewhere.drain maxItems }

def next : MigrationEvent → Migration
  | .start => s.start cfg
  | .select ok => s.select cfg ok
  | .replicate answer now => s.replicate answer now
  | .timeout => s.timeout cfg
  | .finish deleted => s.finish cfg deleted
  | .abort => s.abort
  | .call msg => s.call msg
  | .advance i answer now => s.advance cfg i answer now
  | .drain side maxItems => s.drain side maxItems

/-- The value that a call of `ingest_tick` returns in the step. -/
def output : MigrationEvent → Option Bool
  | .advance i answer _ => s.returned i answer
  | _ => none

end Migration

def migrationMachine (cfg : MigratorConfig) : Machine Migration MigrationEvent (Option Bool) :=
  ⟨fun s e => (s.output e, s.next cfg e)⟩

end Zepto.Cluster
