import Zepto.Lib.FileSystem
import Zepto.Lib.Stream
import Zepto.Storage.Partition

/-!
# Snapshots on disk

`do_snapshot` writes all partitions into a new generation directory, puts a manifest `_COMPLETE`
into it, lets `CURRENT` name it and removes old generations; `resolve_snapshot` finds the generation
to recover from. Paths are relative to the snapshot root. The bytes of a column file come from
outside, as do clock, process id and sequence numbers.
-/

namespace Zepto.Storage

open Zepto.Lib

/-- `kSnapshotManifestMagic`. -/
def snapshotManifestMagic : Text := "ZEPTO_SNAPSHOT_V1".toList

def generationsPath : Path := ["generations".toList]

def currentPath : Path := ["CURRENT".toList]

def generationPath (name : Text) : Path := ["generations".toList, name]

def completePath (name : Text) : Path := ["generations".toList, name, "_COMPLETE".toList]

def isGenerationName (name : Text) : Bool :=
  name.take 4 = "gen-".toList ∧ 4 < name.length ∧ name.length ≤ 160 ∧
    (name.drop 4).all fun c => c.isDigit || c = '-'

/-- The name under which a file is written before it is renamed. -/
def temporaryName (name : Text) (pid sequence : BitVec 64) : Text :=
  name ++ ".tmp.".toList ++ decimal pid.toNat ++ ".".toList ++ decimal sequence.toNat

def snapshotDir (key : PartitionKey) : Path :=
  if key.tableId ≠ 0 then
    ["t".toList ++ decimal key.tableId.toNat, decimal key.symbolId.toNat, decimalInt key.hourEpoch]
  else [decimal key.symbolId.toNat, decimalInt key.hourEpoch]

/-! ## Resolving -/

inductive SnapshotResolution where
  | missing
  | ready (generationPath : Path) (partitionCount rowCount : Nat)
  | invalid (error : String)
  deriving DecidableEq

/-- The root holds something else than an empty directory `generations`. -/
def hasUnpublishedContent (fs : FileSystem) : Bool :=
  (fs.children []).any fun p =>
    !(p = generationsPath ∧ fs.lookup p = some .dir ∧ fs.children p = [])

/-- The last part of `resolve_snapshot`: the manifest of the generation. -/
def resolveManifest (name t : Text) : SnapshotResolution :=
  if t.length = 0 ∨ 512 < t.length then .invalid "snapshot complete manifest has an invalid size"
  else
    let parsed := do
      let (magic, t) ← readWord t
      let (generation, t) ← readWord t
      let (partitions, t) ← readNumber t
      let (rows, t) ← readNumber t
      if (readWord t).isSome ∨ magic ≠ snapshotManifestMagic ∨ generation ≠ name then none
      else some (partitions, rows)
    match parsed with
    | some (partitions, rows) => .ready (generationPath name) partitions rows
    | none => .invalid "snapshot complete manifest is malformed"

def resolveSnapshot (fs : FileSystem) : SnapshotResolution :=
  match fs.lookup [] with
  | none => .missing
  | some (.file _) => .invalid "snapshot root is not a directory"
  | some .dir =>
    match fs.lookup currentPath with
    | none =>
      if hasUnpublishedContent fs then .invalid "snapshot root has data but no CURRENT manifest"
      else .missing
    | some .dir => .invalid "snapshot CURRENT is not a regular file"
    | some (.file t) =>
      if t.length = 0 ∨ 512 < t.length then .invalid "snapshot CURRENT has an invalid size"
      else
        match readWord t with
        | none => .invalid "snapshot CURRENT is malformed"
        | some (name, rest) =>
          if (readWord rest).isSome ∨ isGenerationName name = false then
            .invalid "snapshot CURRENT is malformed"
          else
            match fs.lookup (generationPath name) with
            | some .dir =>
              match fs.lookup (completePath name) with
              | some (.file manifest) => resolveManifest name manifest
              | _ => .invalid "snapshot generation is not complete"
            | _ => .invalid "snapshot CURRENT generation is missing"

/-! ## Writing -/

/-- What `write_column_file` writes, and the number of its temporary file. -/
structure ColumnFile where
  name : Text
  header : Text
  data : Text
  sequence : BitVec 64

/-- A partition as `snapshot_partition_checked` finds it. -/
structure PartitionFiles where
  key : PartitionKey
  rows : Nat
  columns : List ColumnFile
  columns_nodup : (columns.map (·.name)).Nodup

/-- What `do_snapshot` does between making the generation and removing old ones. -/
inductive SnapshotTask where
  | mkdir (p : Path)
  | file (temporary destination : Path) (texts : List Text)
  | check (ok : Bool)

namespace SnapshotTask

def ops : SnapshotTask → List FsOp
  | mkdir p => [.mkdir p]
  | file temporary destination texts => FileSystem.atomicWrite temporary destination texts
  | check _ => []

def abandoned (done : Nat) : SnapshotTask → List FsOp
  | file temporary _ texts => FileSystem.abandonedWrite temporary texts done
  | _ => []

/-- The operations of some tasks, and whether all went well; a failure names its task and how often
it has written. -/
def run : List SnapshotTask → Option (Nat × Nat) → List FsOp × Bool
  | [], _ => ([], true)
  | check false :: _, _ => ([], false)
  | task :: _, some (0, done) => (task.abandoned done, false)
  | task :: tasks, failure =>
    let (ops, ok) := run tasks (failure.map fun (n, done) => (n - 1, done))
    (task.ops ++ ops, ok)

end SnapshotTask

/-- One call of `do_snapshot`, with the sequence numbers of the generation, `_COMPLETE` and
`CURRENT`. -/
structure SnapshotJob where
  now : BitVec 64
  pid : BitVec 64
  sequence : BitVec 64
  completeSequence : BitVec 64
  currentSequence : BitVec 64
  partitions : List PartitionFiles
  partitions_nodup : (partitions.map (·.key)).Nodup
  failure : Option (Nat × Nat)

namespace SnapshotJob

def generationName (job : SnapshotJob) : Text :=
  "gen-".toList ++ decimalInt job.now.toInt ++ "-".toList ++ decimal job.pid.toNat ++ "-".toList ++
    decimal job.sequence.toNat

def generation (job : SnapshotJob) : Path := generationPath job.generationName

/-- `write_column_file`. -/
def columnTask (job : SnapshotJob) (key : PartitionKey) (c : ColumnFile) : SnapshotTask :=
  .file (job.generation ++ snapshotDir key ++
      [temporaryName (c.name ++ ".bin".toList) job.pid c.sequence])
    (job.generation ++ snapshotDir key ++ [c.name ++ ".bin".toList])
    [[], c.header, c.header ++ c.data]

/-- `snapshot_partition_checked`, for a partition that has rows. -/
def partitionTasks (job : SnapshotJob) (part : PartitionFiles) : List SnapshotTask :=
  (snapshotDir part.key).inits.map (fun d => .mkdir (job.generation ++ d)) ++
    part.columns.map (job.columnTask part.key)

/-- The visit of the partitions, with the counts of partitions and rows. -/
def visitTasks (job : SnapshotJob) : List PartitionFiles → Nat → Nat → List SnapshotTask
  | [], _, _ => []
  | part :: parts, partitionCount, rowCount =>
    if part.rows = 0 then job.visitTasks parts partitionCount rowCount
    else
      job.partitionTasks part ++
        .check (rowCount + part.rows < 2 ^ 64 ∧ partitionCount ≠ 2 ^ 64 - 1) ::
          job.visitTasks parts (partitionCount + 1) (rowCount + part.rows)

def filled (job : SnapshotJob) : List PartitionFiles := job.partitions.filter (·.rows ≠ 0)

def partitionCount (job : SnapshotJob) : Nat := job.filled.length

def rowCount (job : SnapshotJob) : Nat := (job.filled.map (·.rows)).sum

def manifest (job : SnapshotJob) : Text :=
  snapshotManifestMagic ++ " ".toList ++ job.generationName ++ " ".toList ++
    decimal job.partitionCount ++ " ".toList ++ decimal job.rowCount ++ "\n".toList

def completeTemporary (job : SnapshotJob) : Path :=
  job.generation ++ [temporaryName "_COMPLETE".toList job.pid job.completeSequence]

def currentTemporary (job : SnapshotJob) : Path :=
  [temporaryName "CURRENT".toList job.pid job.currentSequence]

def completeTask (job : SnapshotJob) : SnapshotTask :=
  .file job.completeTemporary (completePath job.generationName) [[], job.manifest]

def currentTask (job : SnapshotJob) : SnapshotTask :=
  .file job.currentTemporary currentPath [[], job.generationName ++ "\n".toList]

def tasks (job : SnapshotJob) : List SnapshotTask :=
  job.visitTasks job.partitions 0 0 ++ [job.completeTask] ++ [job.currentTask]

/-- `cleanup_old_generations`: of the others the newest stays. -/
def cleanupOps (order : FileSystem.RemovalOrder) (fs : FileSystem) (current : Text) : List FsOp :=
  let names := (fs.children generationsPath).filterMap fun p =>
    if fs.lookup p = some .dir then p.getLast?.filter isGenerationName else none
  let sorted := names.mergeSort fun left right => !decide (left < right)
  ((sorted.filter (· ≠ current)).drop 1).flatMap fun name =>
    fs.removeAll order (generationPath name)

/-- The operations of `do_snapshot`; only the first if a directory at the start cannot be made. -/
def ops (order : FileSystem.RemovalOrder) (fs : FileSystem) (job : SnapshotJob) : List FsOp :=
  let start := [.mkdir [], .mkdir generationsPath]
  if fs.lookup job.generation ≠ none then start
  else
    let (body, ok) := SnapshotTask.run job.tasks job.failure
    let done := start ++ .mkdir job.generation :: body
    if ok then done ++ cleanupOps order (fs.run done) job.generationName
    else done ++ (fs.run done).removeAll order job.generation

def files (job : SnapshotJob) : List (Path × Text) :=
  job.filled.flatMap fun part => part.columns.map fun c =>
    (job.generation ++ snapshotDir part.key ++ [c.name ++ ".bin".toList], c.header ++ c.data)

end SnapshotJob

end Zepto.Storage
