import Zepto.Storage.Flush

/-!
# Flushed partitions are written

A partition that is marked `FLUSHED` should have its columns in every configured sink. Whether the
marks of a run are of that kind is decided step by step: by what the writes of the partition in hand
do, by the counters before it, and by the sinks the tier writes to at all.
-/

namespace Zepto.Storage

open List Zepto.Lib FlushState

def Mark.Durable (config : FlushConfig) (m : Mark) : Prop :=
  ∀ sink ∈ config.sinks, ⟨sink, m.columns⟩ ∈ m.writes

instance (config : FlushConfig) (m : Mark) : Decidable (m.Durable config) :=
  inferInstanceAs (Decidable (∀ _ ∈ _, _))

/-! ## When the sinks have the columns -/

def writesHdb (io : WriteOutcome) (p : Partition) : Bool :=
  p.columns.all (fun c => c.size = p.numRows && (io.column c.name).isSome) && p.numRows ≠ 0 &&
    io.directory

def writesFile (io : WriteOutcome) (p : Partition) : Bool := p.numRows ≠ 0 && io.parquet.isSome

/-- The Parquet file is written, and the format has an array for every column. -/
def writesParquet (io : WriteOutcome) (p : Partition) : Bool :=
  writesFile io p && p.columns.all hasArray

def writesAll (config : FlushConfig) (io : WriteOutcome) (p : Partition) : Bool :=
  (!config.binary || writesHdb io p) && (!config.parquetWriter || writesParquet io p) &&
    (!config.s3Sink || config.parquetWriter && writesParquet io p && io.upload)

/-- No writer has counted anything, before this partition or with it. -/
def writesNothing (config : FlushConfig) (io : WriteOutcome) (c : WriteCounters) (p : Partition) :
    Bool :=
  !(config.binary && writesHdb io p) &&
    !(config.parquetWriter && (writesFile io p || c.filesWritten > 0)) &&
    !(config.s3Sink && c.uploadsSucceeded > 0)

/-- What a step must find for its mark to be durable. -/
def Sound (config : FlushConfig) (st : FlushState) : FlushEvent → Prop
  | .flush key io =>
    ∀ r, st.residents.lookup key = some r → r.state = .sealed →
      writesAll config io r.part ∨ writesNothing config io st.counters r.part
  | .tier now key io =>
    ∀ r, st.residents.lookup key = some r → r.state = .active → st.tiering.enabled →
      r.part.numRows ≠ 0 →
      let tp := st.tiering
      let age := wrap64 (now - r.part.key.hourEpoch)
      ¬(tp.dropAfterNs > 0 ∧ age ≥ tp.dropAfterNs) →
      if tp.coldAfterNs > 0 ∧ age ≥ tp.coldAfterNs then
        writesAll config io r.part ∧ (config.parquetWriter → config.s3Sink)
      else if tp.warmAfterNs > 0 ∧ age ≥ tp.warmAfterNs then
        writesHdb io r.part → ¬config.parquetWriter ∧ ¬config.s3Sink
      else True
  | _ => True

/-! ## The writers -/

theorem writeColumns_pos {io : WriteOutcome} {cols : List ColumnVector} {total : Nat}
    (hsize : ∀ c ∈ cols, c.size ≠ 0) (htotal : cols = [] → 0 < total) :
    0 < writeColumns io cols total ↔ ∀ c ∈ cols, (io.column c.name).isSome := by
  induction cols generalizing total with
  | nil => simpa [writeColumns] using htotal
  | cons c cols ih =>
    rw [forall_mem_cons] at hsize
    have hne : c.size * c.type.size ≠ 0 := mul_ne_zero hsize.1 (pos_iff_ne_zero.mp c.type.size_pos)
    rw [writeColumns, writeColumnFile, if_neg hne, forall_mem_cons]
    cases hcol : io.column c.name with
    | none => simp
    | some bytes =>
      dsimp only
      rw [if_neg (by omega), ih hsize.2 (fun _ => by omega)]
      simp

theorem hdbFlushPartition_pos (io : WriteOutcome) (p : Partition) :
    0 < hdbFlushPartition io .flushing p ↔ writesHdb io p := by
  unfold hdbFlushPartition
  rw [if_neg (by simp)]
  simp only [writesHdb, Bool.and_eq_true, all_eq_true, decide_eq_true_eq]
  by_cases hany : (p.columns.any fun c => c.size ≠ p.numRows)
  · rw [if_pos hany]
    rw [any_eq_true] at hany
    obtain ⟨c, hc, hsize⟩ := hany
    refine ⟨fun h => absurd h (lt_irrefl 0), fun h => ?_⟩
    exact absurd (h.1.1 c hc).1 (of_decide_eq_true hsize)
  · have hsize : ∀ c ∈ p.columns, c.size = p.numRows := by
      intro c hc
      by_contra hne
      exact hany (any_eq_true.mpr ⟨c, hc, decide_eq_true hne⟩)
    rw [if_neg hany]
    by_cases h0 : p.numRows = 0
    · simp [h0]
    by_cases hdir : io.directory
    · have hne : p.columns ≠ [] := fun hnil => h0 (by rw [Partition.numRows, hnil])
      rw [if_neg h0, if_neg (by simp [hdir]),
        writeColumns_pos (fun c hc => hsize c hc ▸ h0) (fun hnil => absurd hnil hne)]
      constructor
      · intro h
        exact ⟨⟨fun c hc => ⟨hsize c hc, h c hc⟩, h0⟩, hdir⟩
      · intro h c hc
        exact (h.1.1 c hc).2
    · simp [hdir]

theorem mem_hdbWritten {bytes : Nat} {p : Partition} {w : Written} :
    w ∈ hdbWritten bytes p ↔ 0 < bytes ∧ w = ⟨.hdb, p.columns⟩ := by
  unfold hdbWritten
  split
  all_goals
    rename_i h
    simp [h]

section

variable (config : FlushConfig) (io : WriteOutcome) (c : WriteCounters) (p : Partition)

theorem flushPartitionParquet_eq : ∃ bytes, flushPartitionParquet config io c p =
    if config.parquetWriter ∧ writesFile io p then
      if config.s3Sink ∧ io.upload then
        (⟨c.filesWritten + 1, c.bytesWritten + bytes, c.uploadsSucceeded + 1⟩,
          [⟨.parquet, arrowColumns p⟩, ⟨.s3, arrowColumns p⟩])
      else (⟨c.filesWritten + 1, c.bytesWritten + bytes, c.uploadsSucceeded⟩,
        [⟨.parquet, arrowColumns p⟩])
    else (c, []) := by
  simp only [flushPartitionParquet, flushToFile, writesFile, Bool.and_eq_true]
  by_cases hw : config.parquetWriter
  · by_cases h0 : p.numRows = 0
    · exact ⟨0, by simp [h0]⟩
    cases hio : io.parquet with
    | none => exact ⟨0, by simp⟩
    | some bytes => exact ⟨bytes, by simp [hw, h0]⟩
  · exact ⟨0, by simp [hw]⟩

/-- What `flush_partition_parquet` writes. -/
theorem mem_flushPartitionParquet {w : Written} : w ∈ (flushPartitionParquet config io c p).2 ↔
      (config.parquetWriter ∧ writesFile io p) ∧ (w = ⟨.parquet, arrowColumns p⟩ ∨
          (config.s3Sink ∧ io.upload) ∧ w = ⟨.s3, arrowColumns p⟩) := by
  obtain ⟨bytes, heq⟩ := flushPartitionParquet_eq config io c p
  rw [heq]
  split_ifs with h hs
  all_goals simp [*]

/-- What `flush_partition_parquet` counts. -/
theorem counters_flushPartitionParquet : ((flushPartitionParquet config io c p).1.filesWritten > 0 ↔
      config.parquetWriter ∧ writesFile io p ∨ c.filesWritten > 0) ∧
    ((flushPartitionParquet config io c p).1.uploadsSucceeded > 0 ↔
      (config.parquetWriter ∧ writesFile io p) ∧
        (config.s3Sink ∧ io.upload) ∨ c.uploadsSucceeded > 0) := by
  obtain ⟨bytes, heq⟩ := flushPartitionParquet_eq config io c p
  rw [heq]
  split_ifs with h hs
  all_goals simp [*]

end

/-! ## Marks -/

theorem durable_iff {config : FlushConfig} {m : Mark} : m.Durable config ↔
      (config.binary → ⟨.hdb, m.columns⟩ ∈ m.writes) ∧
      (config.parquetWriter → ⟨.parquet, m.columns⟩ ∈ m.writes) ∧
      (config.s3Sink → ⟨.s3, m.columns⟩ ∈ m.writes) := by
  unfold Mark.Durable FlushConfig.sinks
  simp only [mem_append, mem_ite_nil_right, mem_singleton, or_imp, forall_and, and_imp, and_assoc]
  constructor
  · rintro ⟨h1, h2, h3⟩
    exact ⟨fun h => h1 _ h rfl, fun h => h2 _ h rfl, fun h => h3 _ h rfl⟩
  · rintro ⟨h1, h2, h3⟩
    exact ⟨fun _ h heq => heq ▸ h1 h, fun _ h heq => heq ▸ h2 h, fun _ h heq => heq ▸ h3 h⟩

theorem eq_arrowColumns {p : Partition} : p.columns = arrowColumns p ↔ p.columns.all hasArray := by
  rw [eq_comm, arrowColumns, filter_eq_self, all_eq_true]

section

variable {config : FlushConfig} {io : WriteOutcome} {c : WriteCounters} {p : Partition} {hdb : Nat}

theorem hdb_mem_writes :
    ⟨.hdb, p.columns⟩ ∈ hdbWritten hdb p ++ (flushPartitionParquet config io c p).2 ↔ 0 < hdb := by
  simp [mem_hdbWritten, mem_flushPartitionParquet]

theorem parquet_mem_writes :
    ⟨.parquet, p.columns⟩ ∈ hdbWritten hdb p ++ (flushPartitionParquet config io c p).2 ↔
      config.parquetWriter ∧ writesParquet io p := by
  simp [mem_hdbWritten, mem_flushPartitionParquet, eq_arrowColumns, writesParquet, and_assoc]

theorem s3_mem_writes :
    ⟨.s3, p.columns⟩ ∈ hdbWritten hdb p ++ (flushPartitionParquet config io c p).2 ↔
      config.s3Sink ∧ config.parquetWriter ∧ writesParquet io p ∧ io.upload := by
  simp only [mem_append, mem_hdbWritten, mem_flushPartitionParquet, Written.mk.injEq,
    reduceCtorEq, false_and, and_false, false_or, true_and, eq_arrowColumns, writesParquet,
    Bool.and_eq_true]
  constructor
  · rintro ⟨⟨hw, hfile⟩, ⟨hs, hup⟩, hall⟩
    exact ⟨hs, hw, ⟨hfile, hall⟩, hup⟩
  · rintro ⟨hs, hw, ⟨hfile, hall⟩, hup⟩
    exact ⟨⟨hw, hfile⟩, ⟨hs, hup⟩, hall⟩

theorem writesAll_iff : writesAll config io p ↔ (config.binary → writesHdb io p) ∧
      (config.parquetWriter → writesParquet io p) ∧
      (config.s3Sink → config.parquetWriter ∧ writesParquet io p ∧ io.upload) := by
  simp [writesAll, ← Bool.not_eq_true, ← imp_iff_not_or, and_assoc]

/-- A mark with what the HDB writer and `flush_partition_parquet` wrote. -/
theorem durable_flush (hhdb : config.binary → (0 < hdb ↔ writesHdb io p)) :
    (⟨p.key, p.columns, hdbWritten hdb p ++ (flushPartitionParquet config io c p).2⟩ : Mark).Durable
      config ↔ writesAll config io p := by
  rw [durable_iff, writesAll_iff, hdb_mem_writes, parquet_mem_writes, s3_mem_writes]
  refine and_congr (imp_congr_right hhdb) (and_congr (imp_congr_right fun hw => ?_)
    (imp_congr_right fun hs => ?_))
  · exact ⟨fun h => h.2, fun h => ⟨hw, h⟩⟩
  · exact ⟨fun h => h.2, fun h => ⟨hs, h⟩⟩

end

section

variable {config : FlushConfig} {p : Partition} {hdb : Nat} {st st' : FlushState} {sound : Prop}
  {key : PartitionKey} {f : Resident → FlushState} {io : WriteOutcome} {c : WriteCounters}
  {r : Resident}

theorem durable_hdb : (⟨p.key, p.columns, hdbWritten hdb p⟩ : Mark).Durable config ↔
      (config.binary → 0 < hdb) ∧ ¬config.parquetWriter ∧ ¬config.s3Sink := by
  rw [durable_iff]
  simp [mem_hdbWritten]

/-! ## Steps -/

/-- The state after a step has the marks before it and these. -/
def Adds (config : FlushConfig) (st st' : FlushState) (sound : Prop) : Prop :=
  ∃ new, st'.marks = st.marks ++ new ∧ ((∀ m ∈ new, m.Durable config) ↔ sound)

theorem adds_nothing (h : st'.marks = st.marks) (hs : sound) : Adds config st st' sound :=
  ⟨[], by rw [h, append_nil], ⟨fun _ => hs, fun _ => nofun⟩⟩

theorem adds_mark {m : Mark} (h : st'.marks = st.marks ++ [m]) (hs : m.Durable config ↔ sound) :
    Adds config st st' sound :=
  ⟨[m], h, by rw [← hs]; simp⟩

theorem Adds.congr {sound' : Prop} (h : Adds config st st' sound) (hs : sound ↔ sound') :
    Adds config st st' sound' := by
  obtain ⟨new, hmarks, hnew⟩ := h
  exact ⟨new, hmarks, hnew.trans hs⟩

theorem adds_withResident {sound : Resident → Prop} (h : ∀ r, Adds config st (f r) (sound r)) :
    Adds config st (st.withResident key f) (∀ r, st.residents.lookup key = some r → sound r) := by
  unfold withResident
  cases st.residents.lookup key with
  | none => exact adds_nothing rfl fun r hr => nomatch hr
  | some r =>
    refine (h r).congr ⟨fun hs r' hr => ?_, fun hs => hs r rfl⟩
    obtain rfl := Option.some.inj hr
    exact hs

theorem writesNothing_iff : ¬writesNothing config io c p ↔ config.binary ∧ writesHdb io p ∨
      config.parquetWriter ∧ (writesFile io p ∨ c.filesWritten > 0) ∨
      config.s3Sink ∧ c.uploadsSucceeded > 0 := by
  simp only [writesNothing, Bool.and_eq_true, Bool.not_eq_true', ← Bool.not_eq_true,
    Bool.or_eq_true, decide_eq_true_eq, ← not_or, not_not, or_assoc]

/-- The flush of a partition fails only if nothing was ever counted. -/
theorem flushSucceeds_iff (hhdb : 0 < hdb ↔ config.binary ∧ writesHdb io p) : flushSucceeds config
      (if config.outputFormat = .parquet ∧ (flushPartitionParquet config io c p).1.filesWritten > 0
        then (flushPartitionParquet config io c p).1.bytesWritten else hdb)
      (flushPartitionParquet config io c p).1 ↔ ¬writesNothing config io c p := by
  obtain ⟨hfiles, huploads⟩ := counters_flushPartitionParquet config io c p
  rw [writesNothing_iff]
  simp only [flushSucceeds, Bool.or_eq_true, Bool.and_eq_true, decide_eq_true_eq, or_assoc]
  constructor
  · rintro (hbytes | ⟨hw, hf⟩ | ⟨hs, hu⟩)
    · split at hbytes
      next hf =>
        have hw : config.parquetWriter := by simp [FlushConfig.parquetWriter, hf.1]
        exact .inr (.inl ⟨hw, (hfiles.mp hf.2).imp And.right id⟩)
      · exact .inl (hhdb.mp hbytes)
    · exact .inr (.inl ⟨hw, (hfiles.mp hf).imp And.right id⟩)
    · rcases huploads.mp hu with ⟨⟨hw, hfile⟩, -⟩ | hu
      · exact .inr (.inl ⟨hw, .inl hfile⟩)
      · exact .inr (.inr ⟨hs, hu⟩)
  · rintro (hb | ⟨hw, hf⟩ | ⟨hs, hu⟩)
    · -- With HDB files the format is not `PARQUET`, so the bytes are the writer's.
      refine .inl ?_
      rw [if_neg]
      · exact hhdb.mpr hb
      · rintro ⟨hformat, -⟩
        have := hb.1
        simp [FlushConfig.binary, hformat] at this
    · exact .inr (.inl ⟨hw, hfiles.mpr (hf.imp (fun h => ⟨hw, h⟩) id)⟩)
    · exact .inr (.inr ⟨hs, huploads.mpr (.inr hu)⟩)

section

variable (config : FlushConfig) (st : FlushState)

section

variable (io : WriteOutcome) (r : Resident)

theorem flushSealed_adds : Adds config st (st.flushSealed config io r)
      (writesAll config io r.part ∨ writesNothing config io st.counters r.part) := by
  have hhdb : 0 < (if config.binary = true then hdbFlushPartition io .flushing r.part else 0) ↔
      config.binary ∧ writesHdb io r.part := by
    cases config.binary <;> simp [hdbFlushPartition_pos]
  have hsucc := flushSucceeds_iff (c := st.counters) hhdb
  unfold flushSealed
  dsimp only
  by_cases hn : writesNothing config io st.counters r.part
  · rw [if_neg (mt hsucc.mp (not_not.mpr hn))]
    exact adds_nothing rfl (.inr hn)
  rw [if_pos (hsucc.mpr hn)]
  refine adds_mark rfl ?_
  rw [durable_flush fun hb => hhdb.trans (and_iff_right hb)]
  exact ⟨.inl, fun h => h.resolve_right hn⟩

theorem tierCold_adds : Adds config st (st.tierCold config io r)
      (r.state = .active → writesAll config io r.part ∧
        (config.parquetWriter → config.s3Sink)) := by
  have hhdb := hdbFlushPartition_pos io r.part
  unfold tierCold
  split
  next hstate =>
    split
    all_goals exact adds_nothing rfl fun h => absurd (hstate.symm.trans h) nofun
  next hstate =>
    dsimp only
    by_cases hboth : config.s3Sink ∧ config.parquetWriter
    · rw [if_pos hboth]
      refine adds_mark rfl ?_
      rw [durable_flush fun _ => hhdb]
      exact ⟨fun h _ => ⟨h, fun _ => hboth.1⟩, fun h => (h hstate).1⟩
    rw [if_neg hboth, append_nil]
    refine adds_mark rfl ?_
    rw [durable_hdb, writesAll_iff, hhdb]
    constructor
    · rintro ⟨hb, hw, hs⟩ -
      exact ⟨⟨hb, fun h => absurd h hw, fun h => absurd h hs⟩, fun h => absurd h hw⟩
    · intro h
      obtain ⟨⟨hb, -, hs⟩, hw⟩ := h hstate
      exact ⟨hb, fun h => hboth ⟨hw h, h⟩, fun h => hboth ⟨h, (hs h).1⟩⟩
  next hactive =>
    exact adds_nothing rfl fun h => absurd h hactive

theorem tierWarm_adds : Adds config st (st.tierWarm config io r)
      (r.state = .active → writesHdb io r.part → ¬config.parquetWriter ∧ ¬config.s3Sink) := by
  have hhdb := hdbFlushPartition_pos io r.part
  unfold tierWarm
  split_ifs with hactive
  · dsimp only
    split_ifs with hbytes
    · refine adds_mark rfl ?_
      rw [durable_hdb]
      exact ⟨fun h _ _ => h.2, fun h => ⟨fun _ => hbytes, h hactive (hhdb.mp hbytes)⟩⟩
    · exact adds_nothing rfl fun _ h => absurd (hhdb.mpr h) hbytes
  · exact adds_nothing rfl fun h => absurd h hactive

end

theorem tier_adds (now : Int) (io : WriteOutcome) (r : Resident) :
    Adds config st (st.tier config now io r) (r.state = .active → r.part.numRows ≠ 0 →
        let tp := st.tiering
        let age := wrap64 (now - r.part.key.hourEpoch)
        ¬(tp.dropAfterNs > 0 ∧ age ≥ tp.dropAfterNs) →
        if tp.coldAfterNs > 0 ∧ age ≥ tp.coldAfterNs then
          writesAll config io r.part ∧ (config.parquetWriter → config.s3Sink)
        else if tp.warmAfterNs > 0 ∧ age ≥ tp.warmAfterNs then
          writesHdb io r.part → ¬config.parquetWriter ∧ ¬config.s3Sink
        else True) := by
  unfold tier
  dsimp only
  split
  next h0 =>
    exact adds_nothing rfl fun _ h => absurd h0 h
  rename_i h0
  split
  next hdrop =>
    exact adds_nothing rfl fun _ _ h => absurd hdrop h
  rename_i hdrop
  split
  · exact (tierCold_adds config st io r).congr ⟨fun h ha _ _ => h ha, fun h ha => h ha h0 hdrop⟩
  split
  · exact (tierWarm_adds config st io r).congr ⟨fun h ha _ _ => h ha, fun h ha => h ha h0 hdrop⟩
  · exact adds_nothing rfl fun _ _ _ => trivial

/-- What a step adds to the marks is durable just when the step is sound. -/
theorem step_adds (e : FlushEvent) :
    Adds config st ((flushMachine config).step st e).2 (Sound config st e) := by
  cases e with
  | ingest p | sealOld now | evict cutoff
  | setTieringPolicy warmNs coldNs dropNs => exact adds_nothing rfl trivial
  | flush key io =>
    refine adds_withResident fun r => ?_
    split_ifs with hsealed
    · exact (flushSealed_adds config st io r).congr ⟨fun h _ => h, fun h => h hsealed⟩
    · exact adds_nothing rfl fun h => absurd h hsealed
  | tier now key io =>
    refine adds_withResident fun r => ?_
    split_ifs with hon
    · exact (tier_adds config st now io r).congr ⟨fun h ha _ => h ha, fun h ha => h ha hon⟩
    · exact adds_nothing rfl fun _ h => absurd h hon

end

/-! ## Marked partitions -/

/-- A partition is under its key, and one that is `FLUSHED` or reclaimed was marked. -/
def Marked (st : FlushState) : Prop :=
  ∀ e ∈ st.residents.entries, e.2.part.key = e.1 ∧
    (e.2.state = .flushed ∨ e.2.reclaimed = true → ∃ m ∈ st.marks, m.key = e.1)

theorem mem_insert {residents : AList fun _ : PartitionKey => Resident}
    {e : Σ _ : PartitionKey, Resident} (h : e ∈ (residents.insert key r).entries) :
    e = ⟨key, r⟩ ∨ e ∈ residents.entries := by
  rw [AList.entries_insert, mem_cons] at h
  exact h.imp id fun h => (kerase_sublist key _).subset h

section

variable (h : Marked st)

include h

/-- A new or replaced partition, marked if it has to be. -/
theorem Marked.insert (hres : st'.residents = st.residents.insert key r)
    (hmarks : st.marks ⊆ st'.marks) (hkey : r.part.key = key)
    (hr : r.state = .flushed ∨ r.reclaimed → ∃ m ∈ st'.marks, m.key = key) : Marked st' := by
  intro e he
  rw [hres] at he
  rcases mem_insert he with rfl | he
  · exact ⟨hkey, hr⟩
  · refine ⟨(h e he).1, fun hf => ?_⟩
    obtain ⟨m, hm, heq⟩ := (h e he).2 hf
    exact ⟨m, hmarks hm, heq⟩

theorem Marked.mark (config : FlushConfig) (r : Resident) (writes : List Written) :
    Marked (st.mark config r writes) :=
  h.insert rfl (subset_append_left _ _) rfl fun _ =>
    ⟨⟨r.part.key, r.part.columns, writes⟩, mem_append_right _ mem_cons_self, rfl⟩

theorem Marked.unmark (hr : ⟨r.part.key, r⟩ ∈ st.residents.entries) : Marked (st.unmark r) :=
  h.insert rfl (.refl _) rfl fun hf => (h _ hr).2 (hf.elim (fun h => nomatch h) .inr)

theorem Marked.sublist (hres : st'.residents.entries ⊆ st.residents.entries)
    (hmarks : st'.marks = st.marks) : Marked st' := by
  intro e he
  rw [hmarks]
  exact h e (hres he)

theorem Marked.withResident (hf : ∀ r, ⟨r.part.key, r⟩ ∈ st.residents.entries → Marked (f r)) :
    Marked (st.withResident key f) := by
  unfold FlushState.withResident
  cases hl : st.residents.lookup key with
  | none => exact h
  | some r =>
    have hmem := AList.mem_lookup_iff.mp hl
    refine hf r ?_
    rw [(h _ hmem).1]
    exact hmem

theorem Marked.flushSealed (config : FlushConfig) (io : WriteOutcome)
    (hr : ⟨r.part.key, r⟩ ∈ st.residents.entries) : Marked (st.flushSealed config io r) := by
  have hc (c : WriteCounters) : Marked { st with counters := c } := h
  exact iteInduction (motive := Marked) (fun _ => (hc _).mark config r _)
    (fun _ => (hc _).unmark hr)

theorem Marked.tier (config : FlushConfig) (now : Int) (io : WriteOutcome)
    (hr : ⟨r.part.key, r⟩ ∈ st.residents.entries) : Marked (st.tier config now io r) := by
  have hc (c : WriteCounters) : Marked { st with counters := c } := h
  unfold FlushState.tier
  dsimp only
  split
  · exact h
  split
  · exact h.sublist (kerase_sublist _ _).subset rfl
  split
  · unfold tierCold
    split
    · split
      · exact h
      · exact h
    · exact (hc _).mark config r _
    · exact h
  split
  · unfold tierWarm
    split
    · dsimp only
      split
      · exact h.mark config r _
      · exact h.unmark hr
    · exact h
  · exact h

theorem Marked.step (config : FlushConfig) (e : FlushEvent) :
    Marked ((flushMachine config).step st e).2 := by
  cases e with
  | ingest p =>
    refine h.insert rfl (.refl _) ?_ ?_
    · cases st.residents.lookup p.key <;> rfl
    · cases hl : st.residents.lookup p.key with
      | none => exact fun hf => absurd hf (by simp)
      | some r => exact (h _ (AList.mem_lookup_iff.mp hl)).2
  | sealOld now =>
    intro e he
    obtain ⟨e', he', rfl⟩ := mem_map.mp he
    refine ⟨?_, fun hf => (h e' he').2 ?_⟩
    · dsimp only
      split
      all_goals exact (h e' he').1
    dsimp only at hf
    split at hf
    · exact hf.imp (fun h => nomatch h) id
    · exact hf
  | evict cutoff => exact h.sublist (filter_subset_self _) rfl
  | setTieringPolicy warmNs coldNs dropNs => exact h.sublist (.refl _) rfl
  | flush key io =>
    refine h.withResident fun r hr => ?_
    split
    · exact h.flushSealed config io hr
    · exact h
  | tier now key io =>
    refine h.withResident fun r hr => ?_
    split
    · exact h.tier config now io hr
    · exact h

end

/-! ## Runs -/

def FlushState.initial (config : FlushConfig) : FlushState := { tiering := config.tiering }

theorem run_durable_iff (config : FlushConfig) (st : FlushState) (events : List FlushEvent) :
    (∀ m ∈ ((flushMachine config).run st events).marks, m.Durable config) ↔
      (∀ m ∈ st.marks, m.Durable config) ∧
        (flushMachine config).Admits (Sound config) st events := by
  induction events generalizing st with
  | nil => exact (and_iff_left trivial).symm
  | cons e events ih =>
    obtain ⟨new, hmarks, hnew⟩ := step_adds config st e
    show (∀ m ∈ ((flushMachine config).run _ events).marks, _) ↔ _ ∧ _ ∧ _
    rw [ih, hmarks, ← hnew, forall_mem_append, and_assoc]

/-- In every run, with any arrivals, evictions and failing writes, a partition that is `FLUSHED` or
reclaimed was marked; and the marks are durable just when every step finds what it must. -/
theorem flushed_durable_iff (config : FlushConfig) (events : List FlushEvent) :
    let st := (flushMachine config).run (.initial config) events
    Marked st ∧ ((∀ m ∈ st.marks, m.Durable config) ↔
      (flushMachine config).Admits (Sound config) (.initial config) events) := by
  refine ⟨(flushMachine config).invariant_run (fun st e h => h.step config e) nofun events, ?_⟩
  rw [run_durable_iff]
  exact and_iff_right nofun

/-- A partition with one tick, of a symbol and hour 0. -/
def oneTickPartition (symbol : SymbolId) : Partition :=
  (Partition.new 1048576 ⟨0, symbol, 0⟩).addTick
    { recvTs := 0, symbolId := symbol, price := 100, volume := 10 }

def allWrites : WriteOutcome where
  directory := true
  column _ := some 8
  parquet := some 100
  upload := true

/-- The Parquet file of symbol 1 is written, that of symbol 2 is not; the counter is not 0, so both
are marked and reclaimed. -/
theorem failed_write_is_flushed :
    let config : FlushConfig := { outputFormat := .parquet, reclaimAfterFlush := true }
    let st := (flushMachine config).run (.initial config)
      [.ingest (oneTickPartition 1), .ingest (oneTickPartition 2), .sealOld (3 * nsPerHour),
       .flush ⟨0, 1, 0⟩ allWrites, .flush ⟨0, 2, 0⟩ { allWrites with parquet := none }]
    (st.residents.lookup ⟨0, 2, 0⟩).map (fun r => (r.state, r.reclaimed)) = some (.flushed, true) ∧
      ∃ m ∈ st.marks, m.key = ⟨0, 2, 0⟩ ∧ m.writes = [] ∧ ¬m.Durable config := by
  decide +kernel

end

end Zepto.Storage
