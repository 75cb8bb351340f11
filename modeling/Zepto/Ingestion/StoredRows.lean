import Zepto.Ingestion.Pipeline
import Zepto.Sql.AlterFrame
import Zepto.Storage.RowContents

/-!
# Rows stored and lengths of columns

`storeMachine` stores ticks and typed rows and runs `ALTER TABLE` on a database whose partitions all
come from these steps; `stored` counts the rows of each partition as the pipeline's `ticks_stored`
does: every tick, and every typed row that was answered with true. All columns of a partition have
that many rows (`LengthsAgree`) after a run whose steps meet `stepFits`.
-/

namespace Zepto.Ingestion

open Zepto.Lib Zepto.Storage Zepto.Sql List

section

variable {s : Counted} {db : Database} {cfg : PipelineConfig}

/-- A database and the rows stored in each partition. -/
structure Counted where
  db : Database
  stored : PartitionKey → Nat := fun _ => 0

/-- The counts after a step that added rows; gone partitions start again. -/
def Counted.recount (s : Counted) (db : Database) (added : PartitionKey → Nat) : Counted where
  db := db
  stored k := if (db.partitionAt k).isSome then s.stored k + added k else 0

inductive StoreEvent where
  | storeTick (msg : TickMessage)
  | ingestTypedRow (row : TypedRowMessage)
  | alterTable (host : Host) (stmt : AlterTableStmt)

def Counted.next (cfg : PipelineConfig) (s : Counted) : StoreEvent → Counted
  | .storeTick msg => s.recount (cfg.storeTick s.db msg) fun k => if k = msg.key then 1 else 0
  | .ingestTypedRow row =>
    let r := ingestTypedRow cfg.arenaSize s.db row
    s.recount r.2 fun k => if r.1 = true ∧ k = row.key then 1 else 0
  | .alterTable host stmt => s.recount (execAlterTable host s.db stmt).2 fun _ => 0

def storeMachine (cfg : PipelineConfig) : Machine Counted StoreEvent Unit :=
  ⟨fun s e => ((), s.next cfg e)⟩

/-- All columns of every partition have as many rows as were stored in it. -/
def LengthsAgree (s : Counted) : Prop :=
  ∀ p ∈ s.db.partitions, p.numRows = s.stored p.key ∧ ∀ c ∈ p.columns, c.size = s.stored p.key

instance (s : Counted) : Decidable (LengthsAgree s) :=
  inferInstanceAs (Decidable (∀ p ∈ s.db.partitions, _ ∧ ∀ c ∈ p.columns, _))

/-- A tick finds its four columns alone, with room for its row; a typed row finds room to fill up
the columns it adds. -/
def stepFits (cfg : PipelineConfig) (s : Counted) : StoreEvent → Bool
  | .storeTick msg => ((s.db.partitionFor cfg.arenaSize msg.key).addTickColumns msg).takesTick
  | .ingestTypedRow row =>
    let p := s.db.partitionFor cfg.arenaSize row.key
    (acceptedSchema s.db row).all fun schema => !typesMatch p schema || p.backfills schema
  | .alterTable _ _ => true

/-! ## Steps -/

/-- The partition has `n` rows in each column. -/
def HasRows (p : Partition) (n : Nat) : Prop := p.Aligned n ∧ p.numRows = n

/-- The counts agree with the partitions, and there are no others. -/
structure Agrees (s : Counted) : Prop where
  rows : ∀ k p, s.db.partitionAt k = some p → HasRows p (s.stored k)
  none : ∀ k, s.db.partitionAt k = none → s.stored k = 0

theorem Agrees.lengths (h : Agrees s) : LengthsAgree s := by
  intro p hp
  obtain ⟨halign, hrows⟩ := h.rows p.key p (Database.partitionAt_of_mem hp)
  exact ⟨hrows, fun c hc => halign c.size (mem_map_of_mem hc)⟩

theorem Agrees.partitionFor (h : Agrees s) (arenaSize : Fin (2 ^ 32)) (k : PartitionKey) :
    HasRows (s.db.partitionFor arenaSize k) (s.stored k) := by
  unfold Database.partitionFor
  cases hp : s.db.partitionAt k with
  | none =>
    rw [h.none k hp]
    exact ⟨by simp [Partition.Aligned, Partition.sizes, Partition.new], rfl⟩
  | some p => exact h.rows k p hp

theorem agrees_recount {added : PartitionKey → Nat}
    (h : ∀ k p, db.partitionAt k = some p → HasRows p (s.stored k + added k)) :
    Agrees (s.recount db added) where
  rows k p hp := by
    have hcount : (s.recount db added).stored k = s.stored k + added k := by
      show (if (db.partitionAt k).isSome then _ else _) = _
      rw [show db.partitionAt k = some p from hp, Option.isSome_some, if_pos rfl]
    rw [hcount]
    exact h k p hp
  none k hk := by
    show (if (db.partitionAt k).isSome then _ else _) = _
    rw [show db.partitionAt k = none from hk]
    rfl

theorem partitionAt_evictPartition {key k : PartitionKey} {p : Partition}
    (h : (evictPartition db key).partitionAt k = some p) : db.partitionAt k = some p := by
  obtain ⟨hmem, hkey⟩ : p ∈ (evictPartition db key).partitions ∧ p.key = k :=
    ⟨mem_of_find?_eq_some h, by simpa using find?_some h⟩
  rw [← hkey]
  exact Database.partitionAt_of_mem (mem_filter.mp hmem).1

theorem agrees_storeTick {msg : TickMessage} (h : Agrees s)
    (hfits : stepFits cfg s (.storeTick msg)) : Agrees (s.next cfg (.storeTick msg)) := by
  refine agrees_recount fun k p hp => ?_
  have hstored : (storeTick cfg.arenaSize s.db msg).partitionAt k = some p := by
    unfold PipelineConfig.storeTick at hp
    simp only at hp
    split at hp
    · exact partitionAt_evictPartition hp
    · exact hp
  rw [Database.partitionAt_storeTick] at hstored
  by_cases hk : k = msg.key
  · subst hk
    rw [if_pos rfl, Option.some.injEq] at hstored
    rw [if_pos rfl, ← hstored]
    obtain ⟨halign, hrows⟩ := h.partitionFor cfg.arenaSize msg.key
    exact Partition.addTick_aligned halign hrows hfits
  · rw [if_neg hk] at hstored ⊢
    exact h.rows k p hstored

theorem agrees_ingestTypedRow {row : TypedRowMessage} (h : Agrees s)
    (hfits : stepFits cfg s (.ingestTypedRow row)) :
    Agrees (s.next cfg (.ingestTypedRow row)) := by
  have hspec := ingestTypedRow_spec cfg.arenaSize s.db row
  refine agrees_recount fun k p hp => ?_
  cases hschema : acceptedSchema s.db row with
  | none =>
    rw [hschema] at hspec
    rw [hspec.2 k] at hp
    rw [if_neg (by simp [hspec.1])]
    exact h.rows k p hp
  | some schema =>
    rw [hschema] at hspec
    obtain ⟨hcols, hanswer, hat⟩ := hspec
    rw [hat k] at hp
    by_cases hk : k = row.key
    · subst hk
      rw [if_pos rfl, Option.some.injEq] at hp
      rw [hanswer]
      obtain ⟨halign, hrows⟩ := h.partitionFor cfg.arenaSize row.key
      have hfill : (!typesMatch (s.db.partitionFor cfg.arenaSize row.key) schema ||
          (s.db.partitionFor cfg.arenaSize row.key).backfills schema) := by
        simpa [stepFits, hschema] using hfits
      generalize s.db.partitionFor cfg.arenaSize row.key = q at *
      cases htypes : typesMatch q schema with
      | false =>
        have hsame : q.addTypedRow schema row.columns = (false, q) :=
          if_neg (Bool.not_eq_true _ ▸ htypes)
        rw [hsame] at hp ⊢
        subst hp
        exact ⟨halign, hrows⟩
      | true =>
        have hsizes := Partition.addTypedRow_sizes row.columns halign hrows
          (by simpa [htypes] using hfill) hcols
        simp only at hsizes
        rw [hp] at hsizes
        cases hdone : (q.addTypedRow schema row.columns).1 with
        | true | false =>
          rw [hdone] at hsizes
          simpa [HasRows] using hsizes
    · rw [if_neg hk] at hp
      rw [if_neg fun hboth => hk hboth.2]
      exact h.rows k p hp

/-- `ALTER TABLE` leaves no partition with other columns. -/
theorem execAlterTable_columns (host : Host) (db : Database) (stmt : AlterTableStmt) :
    ∀ p' ∈ (execAlterTable host db stmt).2.partitions,
      ∃ p ∈ db.partitions, p'.key = p.key ∧ p'.columns = p.columns := by
  have hsame : ∀ db' : Database, db'.partitions = db.partitions → ∀ p' ∈ db'.partitions,
      ∃ p ∈ db.partitions, p'.key = p.key ∧ p'.columns = p.columns :=
    fun db' heq p' hp' => ⟨p', heq ▸ hp', rfl, rfl⟩
  unfold execAlterTable
  split
  · exact hsame db rfl
  split
  · split
    · exact hsame db rfl
    · exact hsame _ (persistSchema_partitions ..)
  · split
    · exact hsame _ (persistSchema_partitions ..)
    · exact hsame db rfl
  next col attr _ =>
    intro p' hp'
    obtain ⟨p, hp, rfl⟩ := mem_map.mp hp'
    refine ⟨p, hp, ?_⟩
    split
    · exact setAttribute_frame attr col p
    · exact ⟨rfl, rfl⟩
  · split <;> exact hsame db rfl
  · simp only
    split
    · intro p' hp'
      exact hsame _ (persistSchema_partitions ..) p' (mem_filter.mp hp').1
    · exact hsame _ (persistSchema_partitions ..)

theorem agrees_alterTable (host : Host) (stmt : AlterTableStmt) (h : Agrees s) :
    Agrees (s.next cfg (.alterTable host stmt)) := by
  refine agrees_recount fun k p' hp' => ?_
  have hkey : p'.key = k := by simpa using find?_some hp'
  obtain ⟨p, hp, hpkey, hcols⟩ :=
    execAlterTable_columns host s.db stmt p' (mem_of_find?_eq_some hp')
  have hrows := h.rows p.key p (Database.partitionAt_of_mem hp)
  rw [← hpkey, hkey] at hrows
  unfold HasRows Partition.Aligned Partition.sizes Partition.numRows at hrows ⊢
  rw [hcols]
  exact hrows

theorem agrees_next (cfg : PipelineConfig) (s : Counted) (e : StoreEvent) (h : Agrees s)
    (hfits : stepFits cfg s e) : Agrees (s.next cfg e) := by
  cases e with
  | storeTick msg => exact agrees_storeTick h hfits
  | ingestTypedRow row => exact agrees_ingestTypedRow h hfits
  | alterTable host stmt => exact agrees_alterTable host stmt h

/-- If the steps meet the condition, all columns of a partition have as many rows as were stored in
it. -/
theorem column_lengths_agree (cfg : PipelineConfig) (db : Database) (hempty : db.partitions = [])
    (es : List StoreEvent)
    (hfits : (storeMachine cfg).Admits (fun s e => stepFits cfg s e = true) ⟨db, fun _ => 0⟩ es) :
    LengthsAgree ((storeMachine cfg).run ⟨db, fun _ => 0⟩ es) := by
  have hstart : Agrees ⟨db, fun _ => 0⟩ :=
    ⟨fun k p hp => by simp [Database.partitionAt, hempty] at hp, fun _ _ => rfl⟩
  exact ((storeMachine cfg).invariant_admits (agrees_next cfg) hstart hfits).lengths

def tickTable : Database where
  registry := .insert "trades"
    { columns := [⟨"timestamp", .timestampNs⟩, ⟨"price", .int64⟩, ⟨"volume", .int64⟩,
        ⟨"msg_type", .int32⟩], tableId := 1 } ∅
  partitions := []
  keys_nodup := nodup_nil

def oneTick : StoreEvent :=
  .storeTick { recvTs := 0, symbolId := 0, price := 100, volume := 10, tableId := 1 }

def addVenue : StoreEvent :=
  .alterTable { env := { now := 0 } } ⟨"trades", .addColumn ⟨"venue", "INT64"⟩⟩

def oneVenueRow : StoreEvent :=
  .ingestTypedRow
    { tableId := 1, timestamp := 0, columns := [{ name := "venue", type := .int64, i64 := 5 }] }

/-- A tick after a typed row with a column more leaves that column short. -/
theorem tick_leaves_column_short :
    ¬LengthsAgree ((storeMachine {}).run ⟨tickTable, fun _ => 0⟩
      [addVenue, oneVenueRow, oneTick]) := by
  decide +kernel

/-- The column that is added after a tick is filled up. -/
theorem added_column_is_filled :
    let s := (storeMachine {}).run ⟨tickTable, fun _ => 0⟩ [oneTick, addVenue, oneVenueRow]
    LengthsAgree s ∧
      s.db.partitions.map (fun p => p.columns.map ColumnVector.size) = [[2, 2, 2, 2, 2]] := by
  refine ⟨column_lengths_agree {} tickTable rfl [oneTick, addVenue, oneVenueRow]
    ⟨?_, rfl, ?_, trivial⟩, ?_⟩
  all_goals decide +kernel

end

end Zepto.Ingestion
