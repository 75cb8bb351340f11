import Mathlib.Algebra.Order.Group.Multiset
import Mathlib.Tactic.Abel
import Zepto.Cluster.Migration

/-!
# When a move keeps every row once

After the commit of a move the destination should hold every row of the symbol once, after a
rollback the source (`ExactlyOnce`). The copy does not know which rows reached the destination
already, so this needs a condition on the steps (`Separate`), which keeps the rows at the nodes
balanced with the ticks ingested (`Balanced`). A tick sent to both nodes before the `SELECT` ends up
at the destination twice, and one of a table that hashes to another node never gets there
(`dual_write_is_copied_again`).
-/

namespace Zepto.Cluster

open Migration List Zepto.Lib Zepto.Storage Zepto.Sql

def contents (cfg : MigratorConfig) (rows : List TickMessage) : Multiset RowContent :=
  (rows.map cfg.content : List RowContent)

/-- The node in charge has each row once, up to ticks that calls under way left at the source. -/
structure ExactlyOnce (cfg : MigratorConfig) (s : Migration) : Prop where
  committed : s.status.state = .committed → contents cfg s.dest.rows = contents cfg s.ingested
  rolledBack : s.status.state = .failed →
    contents cfg s.source.rows = contents cfg s.ingested + contents cfg s.halfDone

def SeparateSend (s : Migration) (answer : Answer) : IngestCall → Prop
  | .routed side _ => side ≠ (if s.pinned then .dest else .source) → answer.applied = false
  | .halfway answerFrom _ => answerFrom.applied = answer.applied
  | _ => True

def Separate (s : Migration) : MigrationEvent → Prop
  | .advance i answer _ => ∀ c, s.calls[i]? = some c → SeparateSend s answer c
  | .finish _ => ∀ rows clean, s.phase = .copied true rows clean → s.timedOut = false → clean = true
  | _ => True

/-! ## Rows -/

section Rows

variable (cfg : MigratorConfig)

@[simp] theorem contents_nil : contents cfg [] = 0 := rfl

@[simp] theorem contents_append (l l' : List TickMessage) :
    contents cfg (l ++ l') = contents cfg l + contents cfg l' := by
  simp [contents]

@[simp] theorem contents_cons (msg : TickMessage) (l : List TickMessage) :
    contents cfg (msg :: l) = {cfg.content msg} + contents cfg l := by
  simp [contents]

@[simp] theorem contents_ingest (n : RowStore) (msg : TickMessage) (now : Int) :
    contents cfg (n.ingest msg now).rows = contents cfg n.rows + contents cfg [msg] := by
  show contents cfg (n.stored ++ (n.queued ++ [{ msg with recvTs := now }])) = _
  rw [← append_assoc, contents_append]
  rfl

theorem contents_ingest_if (n : RowStore) (msg : TickMessage) (applied : Bool) (now : Int) :
    contents cfg (if applied then n.ingest msg now else n).rows =
      contents cfg n.rows + contents cfg (if applied then [msg] else []) := by
  cases applied with
  | false => exact (add_zero _).symm
  | true => exact contents_ingest cfg n msg now

@[simp] theorem rows_drain (n : RowStore) (maxItems : Nat) : (n.drain maxItems).rows = n.rows := by
  simp [RowStore.rows, RowStore.drain]

@[simp] theorem contents_applyBatch (n : RowStore) (batch : List TickMessage) (now : Nat → Int) :
    contents cfg (n.applyBatch batch now).rows = contents cfg n.rows + contents cfg batch := by
  unfold RowStore.applyBatch
  rw [rows_drain]
  show contents cfg (n.stored ++ (n.queued ++ _)) = _
  rw [← append_assoc, contents_append]
  have hstamped : contents cfg (batch.mapIdx fun i msg => { msg with recvTs := now i }) =
      contents cfg batch := by
    unfold contents
    refine congrArg _ (ext_getElem (by simp) fun i _ _ => ?_)
    simp [MigratorConfig.content]
  rw [hstamped]
  rfl

theorem content_copyRow {row : TickMessage} (h : copyable cfg row) :
    cfg.content (copyRow row) = cfg.content row := by
  simp only [copyable, Bool.and_eq_true, decide_eq_true_eq, Bool.not_eq_true'] at h
  obtain ⟨⟨⟨hin, htrades⟩, htype⟩, hfloat⟩ := h
  simp [MigratorConfig.content, copyRow, hin, htrades, htype, hfloat]

theorem contents_copy {rows : List TickMessage} (h : rows.all (copyable cfg)) :
    contents cfg ((rows.filter fun row => cfg.inTrades row.tableId).map copyRow) =
      contents cfg rows := by
  rw [all_eq_true] at h
  have hall : (rows.filter fun row => cfg.inTrades row.tableId) = rows := by
    refine filter_eq_self.mpr fun row hrow => ?_
    have hcopy := h row hrow
    simp only [copyable, Bool.and_eq_true] at hcopy
    exact hcopy.1.1.1
  unfold contents
  rw [hall, map_map]
  exact congrArg _ (map_congr_left fun row hrow => content_copyRow cfg (h row hrow))

end Rows

/-- What the destination still lacks if the copy is clean. -/
def MovePhase.owed : MovePhase → Option (List TickMessage)
  | .selected batch true => some batch
  | .copied true _ true => some []
  | _ => none

/-- What the destination lacks, where this is known. -/
def Migration.owed (s : Migration) : Option (List TickMessage) :=
  if s.pinned then some [] else s.phase.owed

structure Balanced (cfg : MigratorConfig) (s : Migration) : Prop where
  atSource : s.pinned = false →
    contents cfg s.source.rows = contents cfg s.ingested + contents cfg s.halfDone
  atDest : ∀ batch, s.owed = some batch →
    contents cfg batch + contents cfg s.dest.rows = contents cfg s.ingested
  ended : s.pinned = true → s.phase = .idle
  committed : s.status.state = .committed ↔ s.pinned = true

theorem Balanced.exactlyOnce {cfg : MigratorConfig} {s : Migration} (h : Balanced cfg s) :
    ExactlyOnce cfg s where
  committed hstate := by
    have hdest := h.atDest [] (by simp [owed, h.committed.mp hstate])
    rwa [contents_nil, zero_add] at hdest
  rolledBack hstate := by
    refine h.atSource ?_
    rw [← Bool.not_eq_true, ← h.committed, hstate]
    decide

theorem balanced_new (cfg : MigratorConfig) (source dest : RowStore) :
    Balanced cfg (new source dest) where
  atSource _ := by simp [new, halfDone]
  atDest batch h := by simp [new, owed, MovePhase.owed] at h
  ended h := nomatch h
  committed := by simp [new]

/-! ## The steps of the migrator -/

section Steps

variable {cfg : MigratorConfig} {s : Migration}

variable (h : Balanced cfg s)

include h

theorem Balanced.not_pinned (hphase : s.phase ≠ .idle) : s.pinned = false :=
  Bool.eq_false_iff.mpr fun hpinned => hphase (h.ended hpinned)

theorem Balanced.of_phase {phase : MovePhase} {status : MoveStatus} {migrating timedOut : Bool}
    (hpinned : s.pinned = false) (hstate : status.state ≠ .committed)
    (howed : ∀ batch, phase.owed = some batch → contents cfg batch + contents cfg s.dest.rows =
      contents cfg s.ingested) :
    Balanced cfg { s with
      status := status, migrating := migrating, phase := phase, timedOut := timedOut } where
  atSource := h.atSource
  atDest batch hbatch := by
    simp only [hpinned] at hbatch
    exact howed batch hbatch
  ended hp := absurd hp (by simp [hpinned])
  committed := by simp [hpinned, hstate]

theorem Balanced.start : Balanced cfg (s.start cfg) := by
  unfold Migration.start
  split
  next hstart =>
    have hpinned : s.pinned = false := Bool.eq_false_iff.mpr fun hp => hstart.1 (h.committed.mpr hp)
    exact h.of_phase hpinned (by simp) fun batch hbatch => nomatch hbatch
  · exact h

/-- The rows that a clean `SELECT` reads and those at the destination are all. -/
theorem Balanced.of_isClean (hpinned : s.pinned = false) (hclean : s.isClean cfg) :
    contents cfg ((s.source.stored.filter fun row => cfg.inTrades row.tableId).map copyRow) +
      contents cfg s.dest.rows = contents cfg s.ingested := by
  simp only [isClean, Bool.and_eq_true, isPerm_iff] at hclean
  obtain ⟨hcopy, hperm⟩ := hclean
  rw [contents_copy cfg hcopy]
  have hqueued : contents cfg s.dest.rows + contents cfg s.halfDone =
      contents cfg s.source.queued := by
    rw [← contents_append]
    exact Multiset.coe_eq_coe.mpr hperm
  have hsource : contents cfg s.source.stored + contents cfg s.source.queued =
      contents cfg s.ingested + contents cfg s.halfDone := by
    rw [← contents_append]
    exact h.atSource hpinned
  rw [← hqueued, ← add_assoc] at hsource
  exact add_right_cancel hsource

theorem Balanced.select (ok : Bool) : Balanced cfg (s.select cfg ok) := by
  unfold Migration.select
  split
  next hphase =>
    have hpinned := h.not_pinned (by simp [hphase])
    have hstate : s.status.state ≠ .committed := by simp [h.committed, hpinned]
    split
    · exact h.of_phase hpinned hstate fun batch hbatch => nomatch hbatch
    extract_lets rows
    split
    next hrows =>
      refine h.of_phase hpinned hstate fun batch hbatch => ?_
      cases hclean : s.isClean cfg with
      | false => simp [hclean, MovePhase.owed] at hbatch
      | true =>
        obtain rfl : [] = batch := by simpa [hclean, MovePhase.owed] using hbatch
        have hall := h.of_isClean hpinned hclean
        rwa [show (s.source.stored.filter fun row => cfg.inTrades row.tableId) = [] from
          isEmpty_iff.mp hrows] at hall
    · refine h.of_phase hpinned hstate fun batch hbatch => ?_
      cases hclean : s.isClean cfg with
      | false => simp [hclean, MovePhase.owed] at hbatch
      | true =>
        obtain rfl : rows.map copyRow = batch := by simpa [hclean, MovePhase.owed] using hbatch
        exact h.of_isClean hpinned hclean
  · exact h

theorem Balanced.replicate (answer : Answer) (now : Nat → Int) :
    Balanced cfg (s.replicate answer now) := by
  unfold Migration.replicate
  split
  next batch clean hphase =>
    have hpinned := h.not_pinned (by simp [hphase])
    refine ⟨h.atSource, fun owed howed => ?_, fun hp => absurd hp (by simp [hpinned]),
      h.committed⟩
    simp only [Migration.owed, hpinned] at howed
    -- Only an answered batch of a clean copy leaves something known.
    cases answer with
    | notApplied | unacked => exact nomatch howed
    | acked =>
      cases clean with
      | false => exact nomatch howed
      | true =>
        obtain rfl : [] = owed := by simpa [Answer.ok, MovePhase.owed] using howed
        have hdest := h.atDest batch (by simp [owed, hpinned, hphase, MovePhase.owed])
        show _ + contents cfg (s.dest.applyBatch batch now).rows = contents cfg s.ingested
        rw [contents_applyBatch, contents_nil, zero_add, add_comm]
        exact hdest
  · exact h

theorem Balanced.timeout : Balanced cfg (s.timeout cfg) := by
  unfold Migration.timeout
  split
  next htimeout =>
    have hpinned : s.pinned = false := by
      refine h.not_pinned fun hidle => ?_
      simp [isCopying, hidle] at htimeout
    refine h.of_phase hpinned (by simp) fun batch hbatch => h.atDest batch ?_
    simpa [owed, hpinned] using hbatch
  · exact h

theorem Balanced.finish {deleted : Bool} (hsep : Separate s (.finish deleted)) :
    Balanced cfg (s.finish cfg deleted) := by
  unfold Migration.finish
  split
  next ok rows clean hphase =>
    have hpinned := h.not_pinned (by simp [hphase])
    have hstate : s.status.state ≠ .committed := by simp [h.committed, hpinned]
    split
    · exact h.of_phase hpinned hstate fun batch hbatch => nomatch hbatch
    rename_i htimedOut
    split
    next hok =>
      subst hok
      obtain rfl := hsep rows clean hphase (by simpa using htimedOut)
      have hdest := h.atDest [] (by simp [owed, hphase, MovePhase.owed])
      refine ⟨fun hp => (nomatch hp), fun batch hbatch => ?_, fun _ => rfl, by simp⟩
      obtain rfl : [] = batch := by simpa [owed] using hbatch
      exact hdest
    · refine ⟨h.atSource, fun batch hbatch => ?_, fun hp => ?_, h.committed⟩
      · simp [owed, hpinned, MovePhase.owed] at hbatch
      · simp [hpinned] at hp
  · exact h

theorem Balanced.abort : Balanced cfg s.abort := by
  unfold Migration.abort
  split
  next hphase =>
    have hpinned := h.not_pinned (by simp [hphase])
    exact h.of_phase hpinned (by simp) fun batch hbatch => nomatch hbatch
  · exact h

theorem Balanced.drain (side : Side) (maxItems : Nat) : Balanced cfg (s.drain side maxItems) := by
  cases side with
  | source =>
    refine ⟨fun hp => ?_, h.atDest, h.ended, h.committed⟩
    show contents cfg (s.source.drain maxItems).rows = _
    rw [rows_drain]
    exact h.atSource hp
  | dest =>
    refine ⟨h.atSource, fun batch hbatch => ?_, h.ended, h.committed⟩
    show _ + contents cfg (s.dest.drain maxItems).rows = _
    rw [rows_drain]
    exact h.atDest batch hbatch
  | elsewhere => exact ⟨h.atSource, h.atDest, h.ended, h.committed⟩

end Steps

/-! ## The steps of calls -/

section Calls

variable {cfg : MigratorConfig} {s : Migration}

variable {i : Nat} {c : IngestCall} {source : RowStore}

theorem calls_around {calls : List IngestCall} (h : calls[i]? = some c) :
    ∃ before after, calls = before ++ c :: after ∧
      (∀ c', calls.set i c' = before ++ c' :: after) ∧ calls.eraseIdx i = before ++ after := by
  obtain ⟨hi, rfl⟩ := List.getElem?_eq_some_iff.mp h
  refine ⟨calls.take i, calls.drop (i + 1), ?_, fun c' => ?_, eraseIdx_eq_take_drop_succ ..⟩
  · rw [getElem_cons_drop, take_append_drop]
  · rw [set_eq_take_append_cons_drop, if_pos hi]

theorem Balanced.call (h : Balanced cfg s) (msg : TickMessage) : Balanced cfg (s.call msg) := by
  refine ⟨fun hp => ?_, h.atDest, h.ended, h.committed⟩
  have hsource := h.atSource hp
  have hhalf : [if s.migrating then .dual msg else .checked msg].filterMap
      IngestCall.halfDone = [] := by
    split <;> rfl
  show _ = _ + contents cfg (filterMap _ (s.calls ++ _))
  rw [filterMap_append, hhalf, append_nil]
  exact hsource

theorem deliver_source (msg : TickMessage) (answer : Answer) (now : Int) :
    s.deliver .source msg answer now =
      { s with source := if answer.applied then s.source.ingest msg now else s.source } := by
  unfold deliver
  split <;> rfl

theorem deliver_dest (msg : TickMessage) (answer : Answer) (now : Int) :
    s.deliver .dest msg answer now =
      { s with dest := if answer.applied then s.dest.ingest msg now else s.dest } := by
  unfold deliver
  split <;> rfl

theorem contents_halfDone_around (before after : List IngestCall) (c : IngestCall) :
    contents cfg ((before ++ c :: after).filterMap IngestCall.halfDone) =
      contents cfg ((before ++ after).filterMap IngestCall.halfDone) +
        contents cfg c.halfDone.toList := by
  rw [filterMap_append, filterMap_append, filterMap_cons]
  cases c.halfDone with
  | none => simp
  | some msg =>
    simp only [contents_append, contents_cons, Option.toList_some]
    abel

theorem Balanced.set_call (h : Balanced cfg s) {source : RowStore} {i : Nat} {c c' : IngestCall}
    (hc : s.calls[i]? = some c)
    (hsource : contents cfg source.rows + contents cfg c.halfDone.toList =
      contents cfg s.source.rows + contents cfg c'.halfDone.toList) :
    Balanced cfg { s with source := source, calls := s.calls.set i c' } := by
  obtain ⟨before, after, hcalls, hset, -⟩ := calls_around hc
  refine ⟨fun hp => ?_, h.atDest, h.ended, h.committed⟩
  have hall := h.atSource hp
  simp only [halfDone, hcalls, contents_halfDone_around] at hall
  show _ = _ + contents cfg ((s.calls.set i c').filterMap _)
  rw [hset, contents_halfDone_around]
  rw [hall] at hsource
  refine add_right_cancel (hsource.trans ?_)
  abel

/-- A call takes its last step: what it leaves at the source and, where it counts, at the
destination is what is ingested. -/
theorem Balanced.end_call (h : Balanced cfg s) {dest elsewhere : RowStore} {phase : MovePhase}
    {msg : TickMessage} {applied : Bool} (hc : s.calls[i]? = some c)
    (hsource : s.pinned = false → contents cfg source.rows + contents cfg c.halfDone.toList =
      contents cfg s.source.rows + contents cfg (if applied then [msg] else []))
    (hdest : ∀ batch, (if s.pinned then some [] else phase.owed) = some batch →
      s.owed = some batch ∧ contents cfg dest.rows = contents cfg s.dest.rows +
        contents cfg (if applied then [msg] else []))
    (hended : s.pinned → phase = .idle) : Balanced cfg { s with
      source := source, dest := dest, elsewhere := elsewhere, phase := phase,
      calls := s.calls.eraseIdx i,
      ingested := if applied then s.ingested ++ [msg] else s.ingested } := by
  obtain ⟨before, after, hcalls, -, herase⟩ := calls_around hc
  have hingested : contents cfg (if applied then s.ingested ++ [msg] else s.ingested) =
      contents cfg s.ingested + contents cfg (if applied then [msg] else []) := by
    cases applied <;> simp
  refine ⟨fun hp => ?_, fun batch hbatch => ?_, hended, h.committed⟩
  · have hall := h.atSource hp
    simp only [halfDone, hcalls, contents_halfDone_around] at hall
    show contents cfg source.rows =
        contents cfg (if applied then s.ingested ++ [msg] else s.ingested)
      + contents cfg ((s.calls.eraseIdx i).filterMap _)
    rw [hingested, herase]
    have hsum := hsource hp
    rw [hall] at hsum
    refine add_right_cancel (hsum.trans ?_)
    abel
  · obtain ⟨howed, hrows⟩ := hdest batch hbatch
    rw [hingested, hrows, ← add_assoc, h.atDest batch howed]

theorem owed_spoil (phase : MovePhase) : phase.spoil.owed = none := by
  rcases phase with _ | _ | _ | ⟨_ | _⟩ | _ <;> rfl

theorem Balanced.advance (h : Balanced cfg s) {answer : Answer} {now : Int}
    (hsep : Separate s (.advance i answer now)) : Balanced cfg (s.advance cfg i answer now) := by
  unfold Migration.advance
  split
  · exact h
  next msg hc => exact h.set_call hc rfl
  next msg hc =>
    have happlied (hp : s.pinned = true) : answer.applied = false := hsep _ hc (by simp [hp])
    rw [deliver_source]
    refine h.end_call hc (fun _ => ?_) (fun batch hbatch => ?_) fun hp => ?_
    · exact (add_zero _).trans (contents_ingest_if cfg s.source msg answer.applied now)
    · cases hanswer : answer.applied with
      | false => exact ⟨by simpa [hanswer, owed] using hbatch, (add_zero _).symm⟩
      | true =>
        -- The tick spoils the copy, and there is no such tick after the commit.
        have hp : s.pinned = false :=
            Bool.eq_false_iff.mpr fun hp => by simp [happlied hp] at hanswer
        simp [hp, hanswer, owed_spoil] at hbatch
    · simp [happlied hp, h.ended hp]
  next side msg hside hc =>
    cases side with
    | source => exact absurd rfl hside
    | dest =>
      have happlied (hp : s.pinned = false) : answer.applied = false := hsep _ hc (by simp [hp])
      rw [deliver_dest]
      refine h.end_call hc (fun hp => ?_) (fun batch hbatch => ⟨hbatch, ?_⟩) h.ended
      · rw [happlied hp]
        rfl
      · exact contents_ingest_if cfg s.dest msg answer.applied now
    | elsewhere =>
      have happlied : answer.applied = false := hsep _ hc (by split <;> nofun)
      unfold deliver
      rw [happlied]
      exact h.end_call hc (fun _ => rfl) (fun batch hbatch => ⟨hbatch, (add_zero _).symm⟩) h.ended
  next msg hc =>
    rw [deliver_source]
    refine h.set_call hc ?_
    rw [contents_ingest_if]
    cases answer <;> exact add_zero _
  next answerFrom msg hc =>
    have hsame : answerFrom.applied = answer.applied := hsep _ hc
    rw [deliver_dest, hsame, Bool.or_self]
    refine h.end_call hc (fun hp => ?_) (fun batch hbatch => ⟨hbatch, ?_⟩) h.ended
    · show _ + contents cfg (if answerFrom.applied then some msg else none).toList = _
      rw [hsame]
      cases answer <;> rfl
    · exact contents_ingest_if cfg s.dest msg answer.applied now

end Calls

theorem Balanced.next {cfg : MigratorConfig} {s : Migration} (h : Balanced cfg s)
    {e : MigrationEvent} (hsep : Separate s e) : Balanced cfg (s.next cfg e) := by
  cases e with
  | start => exact h.start
  | select ok => exact h.select ok
  | replicate answer now => exact h.replicate answer now
  | timeout => exact h.timeout
  | finish deleted => exact h.finish hsep
  | abort => exact h.abort
  | call msg => exact h.call msg
  | advance i answer now => exact h.advance hsep
  | drain side maxItems => exact h.drain side maxItems

def oneTrade : TickMessage := { recvTs := 5, symbolId := 7, price := 100, volume := 1 }

def allTrades : MigratorConfig := { inTrades := fun _ => true }

/-- A stored row is copied; a tick after the `SELECT` goes to both nodes. -/
def cleanMove : List MigrationEvent :=
  [.start, .select true, .call { oneTrade with price := 101 }, .advance 0 .acked 6,
    .replicate .acked fun _ => 7, .advance 0 .acked 8, .finish true]

/-- A tick goes to both nodes before the `SELECT` reads it at the source. -/
def overlappingMove : List MigrationEvent :=
  [.start, .call oneTrade, .advance 0 .acked 6, .advance 0 .acked 7, .drain .source 1, .select true,
    .replicate .acked fun _ => 8, .finish true]

/-- A tick of a table that hashes to a third node, between the calls for its symbol. -/
def strayTick : List MigrationEvent :=
  [.call { oneTrade with tableId := 1 }, .advance 0 .acked 6, .advance 0 .acked 6, .start,
    .select true, .finish true]

end Zepto.Cluster
