import Zepto.Lib.Machine
import Zepto.Storage.Ingest

/-!
# Flushing and tiering

The background loop of the flush manager: it seals old partitions, writes the sealed ones to the
configured sinks, evicts what is past its TTL and moves partitions along the storage tiers. Which
of the writes succeed comes from outside. Success of a partition is judged by the counters of the
writers, which count all partitions.
-/

namespace Zepto.Storage

open Zepto.Lib

inductive Sink where
  | hdb
  | parquet
  | s3
  deriving DecidableEq

inductive HDBOutputFormat where
  | binary
  | parquet
  | both
  deriving DecidableEq

structure TieringPolicy where
  enabled : Bool := false
  warmAfterNs : Int := 0
  coldAfterNs : Int := 0
  dropAfterNs : Int := 0
  deriving DecidableEq

structure FlushConfig where
  reclaimAfterFlush : Bool := false
  autoSealAgeHours : Int := 1
  outputFormat : HDBOutputFormat := .binary
  enableS3Upload : Bool := false
  s3Bucket : String := ""
  tiering : TieringPolicy := {}
  deriving DecidableEq

namespace FlushConfig

def binary (config : FlushConfig) : Bool :=
  config.outputFormat = .binary || config.outputFormat = .both

/-- There is a `parquet_writer_`. -/
def parquetWriter (config : FlushConfig) : Bool :=
  config.outputFormat = .parquet || config.outputFormat = .both

/-- There is an `s3_sink_`. -/
def s3Sink (config : FlushConfig) : Bool := config.enableS3Upload && config.s3Bucket ≠ ""

def sinks (config : FlushConfig) : List Sink :=
  (if config.binary then [.hdb] else []) ++ (if config.parquetWriter then [.parquet] else []) ++
    (if config.s3Sink then [.s3] else [])

end FlushConfig

/-- `Partition::State`. -/
inductive PartitionState where
  | active
  | sealed
  | flushing
  | flushed
  deriving DecidableEq

structure Resident where
  part : Partition
  state : PartitionState := .active
  /-- `reclaim_arena` was called. -/
  reclaimed : Bool := false

/-- The counters of the Parquet writer and the S3 sink over all partitions. -/
structure WriteCounters where
  filesWritten : Nat := 0
  bytesWritten : Nat := 0
  uploadsSucceeded : Nat := 0
  deriving DecidableEq

structure Written where
  sink : Sink
  columns : List ColumnVector
  deriving DecidableEq

/-- A partition was marked `FLUSHED`, and maybe reclaimed: its key and columns, and what was
written. -/
structure Mark where
  key : PartitionKey
  columns : List ColumnVector
  writes : List Written
  deriving DecidableEq

structure FlushState where
  residents : AList (fun _ : PartitionKey => Resident) := ∅
  counters : WriteCounters := {}
  tiering : TieringPolicy := {}
  /-- The marks so far. -/
  marks : List Mark := []

/-! ## Writers -/

structure WriteOutcome where
  /-- The directory of the partition is there. -/
  directory : Bool
  /-- The bytes of a column file after its header; none if an operation on the file fails. -/
  column : String → Option Nat
  /-- The size of the Parquet file; none if an operation on it fails. -/
  parquet : Option Nat
  upload : Bool

def writeColumnFile (io : WriteOutcome) (col : ColumnVector) : Nat :=
  if col.size * col.type.size = 0 then 0
  else
    match io.column col.name with
    | some bytes => 40 + bytes
    | none => 0

/-- The columns one after the other; 0 at the first that is not written. -/
def writeColumns (io : WriteOutcome) : List ColumnVector → Nat → Nat
  | [], total => total
  | col :: cols, total =>
    let written := writeColumnFile io col
    if written = 0 then 0 else writeColumns io cols (total + written)

/-- `HDBWriter::flush_partition`. -/
def hdbFlushPartition (io : WriteOutcome) (state : PartitionState) (p : Partition) : Nat :=
  if state ≠ .sealed ∧ state ≠ .flushing then 0
  else if p.columns.any fun c => c.size ≠ p.numRows then 0
  else if p.numRows = 0 then 0
  else if ¬io.directory then 0
  else writeColumns io p.columns 0

/-- What the HDB writer wrote, by the bytes it answers. -/
def hdbWritten (bytes : Nat) (p : Partition) : List Written :=
  if bytes > 0 then [⟨.hdb, p.columns⟩] else []

/-- `build_array` makes an array of the column. -/
def hasArray (c : ColumnVector) : Bool := c.size ≠ 0 && c.data.isSome && c.type ≠ .string

/-- `to_arrow_table`: a column without an array is left out. -/
def arrowColumns (p : Partition) : List ColumnVector := p.columns.filter hasArray

/-- `ParquetWriter::flush_to_file`: the size of the file. -/
def flushToFile (io : WriteOutcome) (p : Partition) : Option Nat :=
  if p.numRows = 0 then none else io.parquet

/-- `flush_partition_parquet`: the counters after it, and what it wrote. -/
def flushPartitionParquet (config : FlushConfig) (io : WriteOutcome) (c : WriteCounters)
    (p : Partition) : WriteCounters × List Written :=
  if ¬config.parquetWriter then (c, [])
  else
    match flushToFile io p with
    | none => (c, [])
    | some bytes =>
      let c := { c with
        filesWritten := c.filesWritten + 1
        bytesWritten := c.bytesWritten + bytes }
      let file : Written := ⟨.parquet, arrowColumns p⟩
      if config.s3Sink ∧ io.upload then
        ({ c with uploadsSucceeded := c.uploadsSucceeded + 1 }, [file, ⟨.s3, arrowColumns p⟩])
      else (c, [file])

/-! ## The loop -/

namespace FlushState

/-- Mark a partition `FLUSHED` and reclaim it. -/
def mark (st : FlushState) (config : FlushConfig) (r : Resident) (writes : List Written) :
    FlushState :=
  { st with
    residents := st.residents.insert r.part.key
      { r with state := .flushed, reclaimed := r.reclaimed || config.reclaimAfterFlush }
    marks := st.marks ++ [⟨r.part.key, r.part.columns, writes⟩] }

/-- Put a partition back to `SEALED`. -/
def unmark (st : FlushState) (r : Resident) : FlushState :=
  { st with residents := st.residents.insert r.part.key { r with state := .sealed } }

/-- The flush of a sealed partition judged by the bytes and the counters. -/
def flushSucceeds (config : FlushConfig) (bytes : Nat) (c : WriteCounters) : Bool :=
  bytes > 0 || config.parquetWriter && c.filesWritten > 0 || config.s3Sink && c.uploadsSucceeded > 0

/-- A round of the loop in `do_flush_sealed`. -/
def flushSealed (st : FlushState) (config : FlushConfig) (io : WriteOutcome) (r : Resident) :
    FlushState :=
  let hdb := if config.binary then hdbFlushPartition io .flushing r.part else 0
  let (c, parquet) := flushPartitionParquet config io st.counters r.part
  let bytes :=
    if config.outputFormat = .parquet ∧ c.filesWritten > 0 then c.bytesWritten else hdb
  let st := { st with counters := c }
  if flushSucceeds config bytes c then st.mark config r (hdbWritten hdb r.part ++ parquet)
  else st.unmark r

/-- The `COLD` tier of `do_tiering`. -/
def tierCold (st : FlushState) (config : FlushConfig) (io : WriteOutcome) (r : Resident) :
    FlushState :=
  match r.state with
  | .flushed =>
    if config.s3Sink ∧ config.parquetWriter then
      { st with counters := (flushPartitionParquet config io st.counters r.part).1 }
    else st
  | .active =>
    -- The bytes of the HDB writer and the outcome of the upload are not looked at.
    let hdb := hdbFlushPartition io .flushing r.part
    let (c, parquet) :=
      if config.s3Sink ∧ config.parquetWriter then
        flushPartitionParquet config io st.counters r.part
      else (st.counters, [])
    { st with counters := c }.mark config r (hdbWritten hdb r.part ++ parquet)
  | _ => st

/-- The `WARM` tier of `do_tiering`. -/
def tierWarm (st : FlushState) (config : FlushConfig) (io : WriteOutcome) (r : Resident) :
    FlushState :=
  if r.state = .active then
    let bytes := hdbFlushPartition io .flushing r.part
    if bytes > 0 then st.mark config r (hdbWritten bytes r.part) else st.unmark r
  else st

/-- A round of the loop in `do_tiering`. -/
def tier (st : FlushState) (config : FlushConfig) (now : Int) (io : WriteOutcome) (r : Resident) :
    FlushState :=
  let tp := st.tiering
  let age := wrap64 (now - r.part.key.hourEpoch)
  if r.part.numRows = 0 then st
  else if tp.dropAfterNs > 0 ∧ age ≥ tp.dropAfterNs then
    { st with residents := st.residents.erase r.part.key }
  else if tp.coldAfterNs > 0 ∧ age ≥ tp.coldAfterNs then st.tierCold config io r
  else if tp.warmAfterNs > 0 ∧ age ≥ tp.warmAfterNs then st.tierWarm config io r
  else st

/-- What a step does with a partition, if it is there. -/
def withResident (st : FlushState) (key : PartitionKey) (f : Resident → FlushState) : FlushState :=
  match st.residents.lookup key with
  | some r => f r
  | none => st

/-- The partitions with those that a predicate picks changed. -/
def mapResidents (st : FlushState) (f : Resident → Resident) : FlushState :=
  { st with
    residents := ⟨st.residents.entries.map fun e => ⟨e.1, f e.2⟩, by
      have h := st.residents.nodupKeys
      rwa [List.NodupKeys, List.keys, List.map_map] at *⟩ }

def sealOldPartitions (st : FlushState) (currentTs maxAgeHours : Int) : FlushState :=
  let cutoff := wrap64 (toHourEpoch currentTs - wrap64 (maxAgeHours * nsPerHour))
  st.mapResidents fun r =>
    if r.state = .active ∧ r.part.key.hourEpoch < cutoff then { r with state := .sealed } else r

def evictOlderThan (st : FlushState) (cutoff : Int) : FlushState :=
  { st with
    residents := ⟨st.residents.entries.filter fun e => ¬e.1.hourEpoch < cutoff,
      st.residents.nodupKeys.sublist List.filter_sublist⟩ }

/-- Rows arrive: the partition as they leave it, whatever its state. -/
def ingest (st : FlushState) (p : Partition) : FlushState :=
  let r : Resident :=
    match st.residents.lookup p.key with
    | some r => { r with part := p }
    | none => { part := p }
  { st with residents := st.residents.insert p.key r }

def setTieringPolicy (st : FlushState) (warmNs coldNs dropNs : Int) : FlushState :=
  { st with
    tiering :=
      { enabled := warmNs > 0 || coldNs > 0 || dropNs > 0
        warmAfterNs := warmNs
        coldAfterNs := coldNs
        dropAfterNs := dropNs } }

end FlushState

inductive FlushEvent where
  | ingest (p : Partition)
  | sealOld (now : Int)
  | flush (key : PartitionKey) (io : WriteOutcome)
  | tier (now : Int) (key : PartitionKey) (io : WriteOutcome)
  | evict (cutoff : Int)
  | setTieringPolicy (warmNs coldNs dropNs : Int)

/-- The steps of the loop, one partition at a time, with arrivals and changes of the policy. -/
def flushMachine (config : FlushConfig) : Machine FlushState FlushEvent Unit where
  step st
    | .ingest p => ((), st.ingest p)
    | .sealOld now => ((), st.sealOldPartitions now config.autoSealAgeHours)
    | .flush key io =>
      ((), st.withResident key fun r =>
        if r.state = .sealed then st.flushSealed config io r else st)
    | .tier now key io =>
      ((), st.withResident key fun r =>
        if st.tiering.enabled then st.tier config now io r else st)
    | .evict cutoff => ((), st.evictOlderThan cutoff)
    | .setTieringPolicy warmNs coldNs dropNs => ((), st.setTieringPolicy warmNs coldNs dropNs)

end Zepto.Storage
