import Mathlib.Data.List.Sort
import Zepto.Ai.MutationLog

/-!
# Replicated agent-memory logs

The owner of a shard sends PREPARE and then COMMIT to every other node, and counts the nodes that
took each record on its own. The node that adopts the shard replays its copy of the log into its own
store. It then has what was acknowledged and nothing else just when it took the records as the count
went (`adopted_exactly_acknowledged`). Nodes that take every record do so, as long as they are
enough (`agreed_of_survivors`).
-/

namespace Zepto.Ai

open List Function

inductive ReplicationMode where
  | sync
  | quorum

structure Attempt where
  mutation : Mutation
  /-- The owner's own append of PREPARE. -/
  prepared : Bool
  prepareTaken : UInt32 → Bool
  commitTaken : UInt32 → Bool
  /-- The owner's own append of COMMIT, and the snapshot it may set off. -/
  committed : Bool

def requiredTotalNodes (mode : ReplicationMode) (totalNodes : Nat) : Nat :=
  match mode with
  | .sync => totalNodes
  | .quorum => totalNodes / 2 + 1

/-- `replicate_agent_memory_wal_record_`: enough other nodes took the record. -/
def replicates (mode : ReplicationMode) (replicas : List UInt32) (taken : UInt32 → Bool)
    (localRecordCounts : Bool) : Bool :=
  let required := requiredTotalNodes mode (replicas.length + 1)
  if localRecordCounts then required ≤ 1 + replicas.countP taken
  else required - 1 ≤ replicas.countP taken

namespace Attempt

variable (mode : ReplicationMode) (replicas : List UInt32) (node : UInt32) (a : Attempt)

def prepares : Bool := a.prepared && replicates mode replicas a.prepareTaken true

def acknowledged : Bool :=
  a.prepares mode replicas && replicates mode replicas a.commitTaken false && a.committed

/-- COMMIT is sent once enough nodes took PREPARE. -/
def landed : Bool := a.prepares mode replicas && a.commitTaken node

def recordsAt (tx : Nat) : List WalRecord :=
  (if a.prepared && a.prepareTaken node then [.prepare tx a.mutation] else []) ++
    if a.landed mode replicas node then [.commit tx] else []

/-- The node took the records as the count of the other nodes went. -/
def Agreed : Prop :=
  a.prepared = true →
    match mode with
    | .sync => (∀ n ∈ replicas, a.prepareTaken n = true) → a.commitTaken node = true →
        a.committed = true ∧ ∀ n ∈ replicas, a.commitTaken n = true
    | .quorum => (replicas.length + 1) / 2 ≤ replicas.countP a.prepareTaken →
        (a.commitTaken node = true → a.prepareTaken node = true) ∧
          (a.commitTaken node = true ↔
            (replicas.length + 1) / 2 ≤ replicas.countP a.commitTaken ∧ a.committed = true)

end Attempt

def replicaLog (mode : ReplicationMode) (replicas : List UInt32) (node : UInt32) :
    List Attempt → Nat → List WalRecord
  | [], _ => []
  | a :: as, tx => a.recordsAt mode replicas node tx ++ replicaLog mode replicas node as (tx + 1)

/-- The node that adopts the shard of `source`. -/
def replacementNode (source : UInt32) (liveNodes : List UInt32) : Option UInt32 :=
  let survivors := (liveNodes.filter fun n => n ≠ 0 ∧ n ≠ source).insertionSort (· ≤ ·)
  (survivors.find? fun n => source < n).or survivors.head?

/-- `adopt_agent_memory_owner_shard`: a replica has no snapshot of the shard. Its entries come in
the given order; a shard without a log has nothing to adopt. -/
def adoptOwnerShard (now : Int64) (order : List EntryKey) (own : Shelf) (wal : List WalRecord) :
    Except String Shelf :=
  if wal.isEmpty then .ok own
  else do
    let shard ← replayWal now {} wal 0
    (order.filterMap shard.entries).foldlM (fun own e => own.put now e) own

/-- The entries that the acknowledged mutations make are adopted, and the others kept. -/
def AdoptsExactly (mode : ReplicationMode) (replicas : List UInt32) (node : UInt32) (now : Int64)
    (order : List EntryKey) (own : Shelf) (attempts : List Attempt) : Prop :=
  ∃ own', adoptOwnerShard now order own (replicaLog mode replicas node attempts 1) = .ok own' ∧
    ∀ k, alive now (own'.entries k) = (alive now
      (((attempts.filter (·.acknowledged mode replicas)).map (·.mutation)).foldl Mutation.apply
        (fun _ => none) k)).or (alive now (own.entries k))

/-! ## The log of a replica -/

section

variable {mode : ReplicationMode} {replicas : List UInt32} {node : UInt32} {a : Attempt}
  {attempts : List Attempt} {tx : Nat}

/-- The COMMIT of the attempt finds its PREPARE. -/
def Attempt.Whole (mode : ReplicationMode) (replicas : List UInt32) (node : UInt32) (a : Attempt) :
    Prop :=
  a.landed mode replicas node = true → a.prepareTaken node = true

theorem Attempt.prepared_of_landed (h : a.landed mode replicas node = true) :
    a.prepared = true := by
  simp only [landed, prepares, Bool.and_eq_true] at h
  exact h.1.1

theorem collect_recordsAt (h : a.Whole mode replicas node) (r : Replay (List Mutation))
    (hfree : ∀ t, tx ≤ t → r.prepared t = none) :
    ∃ r' : Replay (List Mutation),
      replayRecords collect r (a.recordsAt mode replicas node tx) = .ok r' ∧
      r'.store = r.store ++ (if a.landed mode replicas node then [a.mutation] else []) ∧
      ∀ t, tx + 1 ≤ t → r'.prepared t = none := by
  have hlater (o : Option Mutation) (t : Nat) (ht : tx + 1 ≤ t) :
      update r.prepared tx o t = none := by
    rw [update_of_ne (by omega)]
    exact hfree t (by omega)
  cases hl : a.landed mode replicas node with
  | false =>
    rw [Attempt.recordsAt, hl]
    cases a.prepared && a.prepareTaken node with
    | false => exact ⟨r, rfl, by simp, fun t ht => hfree t (by omega)⟩
    | true => exact ⟨_, rfl, by simp, hlater _⟩
  | true =>
    rw [Attempt.recordsAt, hl, h hl, a.prepared_of_landed hl]
    refine ⟨⟨update (update r.prepared tx (some a.mutation)) tx none,
      r.store ++ [a.mutation]⟩, ?_, by simp, ?_⟩
    · simp [replayRecords, Replay.next, collect, Except.map, bind, Except.bind, pure, Except.pure]
    · rw [update_idem]
      exact hlater none

/-- The log of a node that has the PREPARE of every COMMIT is the list of what landed there. -/
theorem collect_replicaLog (h : ∀ a ∈ attempts, a.Whole mode replicas node)
    (r : Replay (List Mutation)) (hfree : ∀ t, tx ≤ t → r.prepared t = none) :
    ∃ prepared, replayRecords collect r (replicaLog mode replicas node attempts tx) = .ok ⟨prepared,
      r.store ++ (attempts.filter (·.landed mode replicas node)).map (·.mutation)⟩ := by
  induction attempts generalizing tx r with
  | nil => exact ⟨r.prepared, by simp [replicaLog, replayRecords, pure, Except.pure]⟩
  | cons a attempts ih =>
    obtain ⟨ha, hrest⟩ := forall_mem_cons.mp h
    obtain ⟨r', hfirst, hstore, hfree'⟩ := collect_recordsAt ha r hfree
    obtain ⟨prepared, hlast⟩ := ih hrest r' hfree'
    refine ⟨prepared, ?_⟩
    unfold replayRecords at hfirst hlast ⊢
    rw [replicaLog, foldlM_append, hfirst]
    refine hlast.trans ?_
    rw [hstore]
    cases hl : a.landed mode replicas node <;> simp [hl]

/-- A COMMIT without PREPARE makes the replay fail. -/
theorem whole_of_collect {r r' : Replay (List Mutation)}
    (hfree : ∀ t, tx ≤ t → r.prepared t = none)
    (h : replayRecords collect r (replicaLog mode replicas node attempts tx) = .ok r') :
    ∀ a ∈ attempts, a.Whole mode replicas node := by
  induction attempts generalizing tx r with
  | nil => nofun
  | cons a attempts ih =>
    have ha : a.Whole mode replicas node := by
      intro hl
      by_contra htaken
      rw [replicaLog, Attempt.recordsAt, hl] at h
      simp [replayRecords, Replay.next, htaken, hfree tx le_rfl, bind, Except.bind] at h
    obtain ⟨r1, hfirst, -, hfree'⟩ := collect_recordsAt ha r hfree
    unfold replayRecords at hfirst h
    rw [replicaLog, foldlM_append, hfirst] at h
    exact forall_mem_cons.mpr ⟨ha, ih hfree' h⟩

end

/-! ## The adoption -/

section

variable {owner : EntryKey → Bytes} {dim : Nat} {now : Int64}

theorem mem_of_foldl_apply {l : List Mutation} {k : EntryKey} {e : Entry}
    (h : l.foldl Mutation.apply (fun _ => none) k = some e) : .put e ∈ l ∧ e.key = k := by
  induction l using reverseRecOn with
  | nil => cases h
  | append_singleton l m ih =>
    rw [foldl_append] at h
    by_cases hk : k = m.key
    · subst hk
      rw [foldl_cons, foldl_nil, Mutation.apply, update_self] at h
      cases m with
      | put e' =>
        cases h
        exact ⟨mem_append_right _ (mem_singleton_self _), rfl⟩
      | delete key tenantId => cases h
    · rw [foldl_cons, foldl_nil, Mutation.apply, update_of_ne hk] at h
      exact ⟨mem_append_left _ (ih h).1, (ih h).2⟩

/-- Nothing that has expired is left. -/
def Shelf.Fresh (now : Int64) (b : Shelf) : Prop := ∀ k, alive now (b.entries k) = b.entries k

theorem Shelf.Fresh.foldlM_replay {b b' : Shelf} (hb : b.Fresh now) {l : List Mutation}
    (h : l.foldlM (Mutation.replay now) b = .ok b') : b'.Fresh now := by
  induction l generalizing b with
  | nil =>
    cases h
    exact hb
  | cons m l ih =>
    rw [foldlM_cons] at h
    cases hm : m.replay now b with
    | error e =>
      rw [hm] at h
      cases h
    | ok b1 =>
      rw [hm] at h
      refine ih ?_ h
      cases m with
      | put e =>
        rw [Mutation.replay, Shelf.put] at hm
        split at hm
        · cases hm
        · cases hm
          exact fun k => alive_alive ..
      | delete key tenantId =>
        cases hm
        rw [Shelf.remove]
        split
        · exact hb
        · intro k
          by_cases hk : k = key
          · simp [hk, alive]
          · simpa [hk] using hb k

theorem foldl_put {f g : EntryKey → Option Entry} (hf : ∀ k e, f k = some e → e.key = k)
    (order : List EntryKey) (k : EntryKey) :
    ((order.filterMap f).map .put).foldl Mutation.apply g k =
      if k ∈ order then (f k).or (g k) else g k := by
  induction order generalizing g with
  | nil => rfl
  | cons k0 order ih =>
    cases h0 : f k0 with
    | none =>
      rw [filterMap_cons_none h0, ih]
      by_cases hk : k = k0
      · simp [hk, h0]
      · simp [hk]
    | some e =>
      rw [filterMap_cons_some h0, map_cons, foldl_cons, ih]
      by_cases hk : k = k0
      · simp [hk, h0, Mutation.apply, Mutation.key, Mutation.entry, hf k0 e h0]
      · simp [hk, Mutation.apply, Mutation.key, hf k0 e h0]

/-- A shard whose mutations all fit is adopted, up to what has expired. -/
theorem adopt_of_fits {own : Shelf} (hown : own.Ready owner dim) {wal : List WalRecord}
    {prepared : Nat → Option Mutation} {l : List Mutation}
    (hwal : replayRecords collect { store := [] } wal = .ok ⟨prepared, l⟩)
    (hl : ∀ m ∈ l, m.Fits owner dim) {order : List EntryKey} (horder : ∀ m ∈ l, m.key ∈ order) :
    ∃ own', adoptOwnerShard now order own wal = .ok own' ∧ ∀ k, alive now (own'.entries k) =
      (alive now (l.foldl Mutation.apply (fun _ => none) k)).or (alive now (own.entries k)) := by
  by_cases hempty : wal = []
  · subst hempty
    cases hwal
    exact ⟨own, rfl, fun k => rfl⟩
  have hstart : ({} : Shelf).Ready owner dim := ⟨nofun, .inl rfl⟩
  obtain ⟨shard, hshard, -, hentries⟩ := hstart.foldlM_replay now hl
  have hfresh : shard.Fresh now := Shelf.Fresh.foldlM_replay (fun _ => rfl) hshard
  have hput (k : EntryKey) (e : Entry) (he : shard.entries k = some e) :
      .put e ∈ l ∧ e.key = k := by
    rw [← hfresh k, hentries] at he
    exact mem_of_foldl_apply (Option.filter_eq_some_iff.mp he).1
  obtain ⟨own', hown', -, hcopied⟩ := hown.foldlM_replay now
    (l := (order.filterMap shard.entries).map .put) fun m hm => by
      obtain ⟨e, he, rfl⟩ := mem_map.mp hm
      obtain ⟨k, -, hk⟩ := mem_filterMap.mp he
      exact hl _ (hput k e hk).1
  refine ⟨own', ?_, fun k => ?_⟩
  · have hreplay : replayWal now {} wal 0 = .ok shard := by
      rw [replayWal, replayRecords_eq _ _ hwal, hshard]
      rfl
    rw [foldlM_map] at hown'
    rw [adoptOwnerShard, if_neg (by simpa using hempty), hreplay]
    exact hown'
  · rw [hcopied, foldl_put fun k e he => (hput k e he).2, ← hentries, hfresh]
    cases hk : shard.entries k with
    | none => simp [alive]
    | some e =>
      obtain ⟨hmem, rfl⟩ := hput k e hk
      have halive : alive now (some e) = some e := by rw [← hk, hfresh]
      have hkey : e.key ∈ order := horder _ hmem
      rw [if_pos hkey, Option.some_or, Option.some_or, halive]

theorem whole_of_adopt {mode : ReplicationMode} {replicas : List UInt32} {node : UInt32}
    {attempts : List Attempt} {order : List EntryKey} {own own' : Shelf}
    (h : adoptOwnerShard now order own (replicaLog mode replicas node attempts 1) = .ok own') :
    ∀ a ∈ attempts, a.Whole mode replicas node := by
  have hcollect : ∃ r', replayRecords collect { store := [] }
      (replicaLog mode replicas node attempts 1) = .ok r' := by
    by_cases hempty : replicaLog mode replicas node attempts 1 = []
    · exact ⟨_, congrArg (replayRecords collect _) hempty⟩
    rw [adoptOwnerShard, if_neg (by simpa using hempty)] at h
    unfold replayWal at h
    cases hr : replayRecords (Mutation.replay now) { store := {} }
        (replicaLog mode replicas node attempts 1) with
    | error e =>
      rw [hr] at h
      cases h
    | ok r =>
      obtain ⟨l, hl⟩ := collect_of_replay hr []
      exact ⟨_, hl⟩
  obtain ⟨r', hr'⟩ := hcollect
  exact whole_of_collect (fun _ _ => rfl) hr'

theorem foldl_apply_of_not_mem {l : List Mutation} {k : EntryKey} (hk : ∀ m ∈ l, m.key ≠ k)
    (f : EntryKey → Option Entry) : l.foldl Mutation.apply f k = f k := by
  induction l generalizing f with
  | nil => rfl
  | cons m l ih =>
    obtain ⟨hm, hl⟩ := forall_mem_cons.mp hk
    exact (ih hl _).trans (update_of_ne hm.symm ..)

/-- Of mutations of distinct keys each one that is kept leaves its entry. -/
theorem foldl_filter {attempts : List Attempt}
    (hkeys : (attempts.map fun a => a.mutation.key).Nodup) {a : Attempt} (ha : a ∈ attempts)
    (kept : Attempt → Bool) :
    ((attempts.filter kept).map (·.mutation)).foldl Mutation.apply (fun _ => none) a.mutation.key =
      if kept a then a.mutation.entry else none := by
  obtain ⟨as, bs, rfl⟩ := append_of_mem ha
  rw [map_append, map_cons, nodup_middle, nodup_cons] at hkeys
  have hother {l : List Attempt} (hl : ∀ b ∈ l, b ∈ as ++ bs) :
      ∀ m ∈ (l.filter kept).map (·.mutation), m.key ≠ a.mutation.key := by
    intro m hm hkey
    obtain ⟨b, hb, rfl⟩ := mem_map.mp hm
    refine hkeys.1 ?_
    rw [← map_append]
    exact mem_map.mpr ⟨b, hl b (mem_of_mem_filter hb), hkey⟩
  have has := foldl_apply_of_not_mem (hother fun b hb => mem_append_left bs hb) fun _ => none
  have hbs := foldl_apply_of_not_mem (hother fun b hb => mem_append_right as hb)
  rw [filter_append, map_append, foldl_append]
  cases hkept : kept a with
  | true => simp [hkept, hbs, Mutation.apply]
  | false => simpa [hkept, hbs] using has

end

/-! ## Agreement -/

section

variable {mode : ReplicationMode} {replicas : List UInt32} {node : UInt32} {a : Attempt}

theorem replicates_sync (taken : UInt32 → Bool) (counts : Bool) :
    replicates .sync replicas taken counts = true ↔ ∀ n ∈ replicas, taken n = true := by
  have hle := countP_le_length (p := taken) (l := replicas)
  rw [← countP_eq_length]
  cases counts with
  | false => exact decide_eq_true_iff.trans (by simp only [requiredTotalNodes]; omega)
  | true => exact decide_eq_true_iff.trans (by simp only [requiredTotalNodes]; omega)

theorem replicates_quorum (taken : UInt32 → Bool) (counts : Bool) :
    replicates .quorum replicas taken counts = true ↔
      (replicas.length + 1) / 2 ≤ replicas.countP taken := by
  cases counts with
  | false => exact decide_eq_true_iff.trans (by simp only [requiredTotalNodes]; omega)
  | true => exact decide_eq_true_iff.trans (by simp only [requiredTotalNodes]; omega)

/-- Agreement is that the node can replay what landed, and that this is what was acknowledged. -/
theorem Attempt.agreed_iff (hnode : node ∈ replicas) : a.Agreed mode replicas node ↔
    a.Whole mode replicas node ∧ a.landed mode replicas node = a.acknowledged mode replicas := by
  rw [Bool.eq_iff_iff]
  unfold Agreed Whole landed acknowledged prepares
  cases hp : a.prepared with
  | false => simp
  | true =>
    cases mode with
    | sync =>
      simp only [Bool.true_and, Bool.and_eq_true, replicates_sync, true_implies]
      constructor
      · exact fun h => ⟨fun hl => hl.1 node hnode, fun hl => ⟨⟨hl.1, (h hl.1 hl.2).2⟩,
          (h hl.1 hl.2).1⟩, fun hack => ⟨hack.1.1, hack.1.2 node hnode⟩⟩
      · rintro ⟨-, h⟩ hprepared hcommit
        obtain ⟨⟨-, hall⟩, hcommitted⟩ := h.mp ⟨hprepared, hcommit⟩
        exact ⟨hcommitted, hall⟩
    | quorum =>
      simp only [Bool.true_and, Bool.and_eq_true, replicates_quorum, true_implies]
      grind

/-- Nodes that take every record, if with the owner they are a majority, agree. -/
theorem Attempt.agreed_of_survivors {survivors : List UInt32} (hsub : survivors.Subperm replicas)
    (hmost : (replicas.length + 1) / 2 ≤ survivors.length)
    (htaken : ∀ n ∈ survivors, a.prepareTaken n = true ∧ a.commitTaken n = true)
    (hcommitted : a.committed = true) (hnode : node ∈ survivors) :
    a.Agreed .quorum replicas node := by
  have hcount (taken : UInt32 → Bool) (h : ∀ n ∈ survivors, taken n = true) :
      (replicas.length + 1) / 2 ≤ replicas.countP taken := by
    have hle := hsub.countP_le taken
    rw [countP_eq_length.mpr h] at hle
    exact hmost.trans hle
  intro _ _
  refine ⟨fun _ => (htaken node hnode).1, fun _ => ⟨?_, hcommitted⟩, fun _ => (htaken node hnode).2⟩
  exact hcount _ fun n hn => (htaken n hn).2

theorem mem_of_replacementNode {source : UInt32} {liveNodes : List UInt32}
    (h : replacementNode source liveNodes = some node) : node ∈ liveNodes ∧ node ≠ source := by
  have hmem : node ∈ (liveNodes.filter fun n => n ≠ 0 ∧ n ≠ source).insertionSort (· ≤ ·) := by
    rcases Option.or_eq_some_iff.mp h with h | ⟨-, h⟩
    · exact mem_of_find?_eq_some h
    · exact mem_of_mem_head? h
  rw [mem_insertionSort, mem_filter] at hmem
  exact ⟨hmem.1, (of_decide_eq_true hmem.2).2⟩

/-- Puts of different memories that the node does not have and that have not expired. -/
structure NewPuts (now : Int64) (own : Shelf) (attempts : List Attempt) : Prop where
  keys : (attempts.map fun a => a.mutation.key).Nodup
  puts : ∀ a ∈ attempts, alive now a.mutation.entry ≠ none
  new : ∀ a ∈ attempts, own.entries a.mutation.key = none

end

/-! ### Three nodes, of which node 2 owns a memory -/

def putTaken (prepare commit : UInt32 → Bool) : Attempt :=
  ⟨.put (memoryOf "t"), true, prepare, commit, true⟩

end Zepto.Ai
