import Zepto.Sql.InsertRows

/-!
# INSERT as a whole

`InsertAtomic`: a statement answered with an error leaves the rows and the dictionary alone, any
other stores all its rows in order. Rows are stored up to the first that does not fit, so this holds
exactly where all go in, or the error comes with none of them in and no new string
(`insert_atomic_iff`). The rows of a table without a schema become ticks with the time of the clock;
one that the queue has no room for is stored and yet counted as failed, and hides the ticks of the
next statement (`first_row_stays`).
-/

namespace Zepto.Sql

open List Zepto.Lib Zepto.Storage Zepto.Ingestion

/-! ## Rows as ticks -/

def InsertValue.text : InsertValue → Option String
  | .string s => some s
  | _ => none

def tickStrings (cols : List String) (row : List InsertValue) : List String :=
  ["symbol", "price", "volume", "timestamp"].flatMap fun name =>
    ((namedValue cols row name).bind InsertValue.text).toList

theorem namedInt_symbolDict (cols : List String) (row : List InsertValue) (name : String)
    (default : Int) (dict : StringDictionary) :
    (namedInt cols row name default dict).2 =
      internAll dict ((namedValue cols row name).bind InsertValue.text).toList := by
  unfold namedInt
  cases namedValue cols row name with
  | none => rfl
  | some value => cases value <;> rfl

theorem rowTick_symbolDict (host : Host) (tableId : TableId) (cols : List String)
    (row : List InsertValue) (dict : StringDictionary) :
    (rowTick host tableId cols row dict).2 = internAll dict (tickStrings cols row) := by
  unfold rowTick tickStrings
  simp only [flatMap_cons, internAll_append, namedInt_symbolDict]
  cases namedValue cols row "price" with
  | none => rfl
  | some value => cases value <;> rfl

def goodRows (cols : List String) (rows : List (List InsertValue)) : List (List InsertValue) :=
  rows.takeWhile fun row => row.length = cols.length

theorem rowTicks_spec (host : Host) (tableId : TableId) (cols : List String)
    (rows : List (List InsertValue)) (dict : StringDictionary) :
    let t := rowTicks host tableId cols rows dict
    t.2.2 = internAll dict ((goodRows cols rows).flatMap (tickStrings cols)) ∧
      (∀ msg ∈ t.1, msg.tableId = tableId) ∧
      (if rows.all fun row => row.length = cols.length then t.2.1 = none
      else ∃ r, t.2.1 = some r ∧ r.ok = false) := by
  induction rows generalizing dict with
  | nil => exact ⟨rfl, by simp [rowTicks], rfl⟩
  | cons row rows ih =>
    unfold rowTicks goodRows
    by_cases hlen : row.length = cols.length
    · obtain ⟨hdict, hid, herror⟩ := ih (rowTick host tableId cols row dict).2
      rw [if_neg (by rw [hlen]; simp), takeWhile_cons_of_pos (by simpa using hlen),
        flatMap_cons, internAll_append]
      simp only [all_cons, hlen]
      refine ⟨?_, fun msg hmsg => ?_, herror⟩
      · rw [hdict, rowTick_symbolDict]
        rfl
      · rcases mem_cons.mp hmsg with rfl | hmsg
        · rfl
        · exact hid msg hmsg
    · rw [if_pos hlen, takeWhile_cons_of_neg (by simpa using hlen)]
      simp only [all_cons, hlen]
      exact ⟨rfl, by simp, _, rfl, ok_columnCountError _ _⟩

theorem storeAll_symbolDict (arenaSize : Fin (2 ^ 32)) (db : Database) (msgs : List TickMessage) :
    (msgs.foldl (storeTick arenaSize) db).symbolDict = db.symbolDict := by
  induction msgs generalizing db with
  | nil => rfl
  | cons msg msgs ih =>
    rw [foldl_cons, ih]
    exact editPartition_symbolDict _ _ _ _

/-! ## The property -/

def legacyColumns (stmt : InsertStmt) : List String :=
  if stmt.columns.isEmpty then ["symbol", "price", "volume", "timestamp"] else stmt.columns

def legacyTicks (host : Host) (db : Database) (stmt : InsertStmt) : List TickMessage :=
  (rowTicks host (db.registry.getTableId stmt.tableName) (legacyColumns stmt) stmt.valueRows
    db.symbolDict).1

def typedColumns (schema : TableSchema) (stmt : InsertStmt) : Except String (List ColumnDef) :=
  orderedColumns schema stmt.tableName []
    (if stmt.columns.isEmpty then schema.columns.map ColumnDef.name else stmt.columns)

/-- What the partitions hold once all rows of the statement are in. -/
def withRows (host : Host) (db : Database) (stmt : InsertStmt) :
    PartitionKey → List ColumnContents :=
  match db.registry.lookup stmt.tableName with
  | some schema =>
    match typedColumns schema stmt with
    | .error _ => db.contentsOf
    | .ok columns =>
      (rowMessages host schema.tableId columns stmt.valueRows db.symbolDict).foldl
        (pushMessage (columnsOf db schema.tableId)) db.contentsOf
  | none => (legacyTicks host db stmt).foldl pushAt db.contentsOf

/-- The statement has no effect if it fails, else all its effect. -/
structure InsertAtomic (host : Host) (db : Database) (stmt : InsertStmt) : Prop where
  onError : (execInsert host db stmt).1.ok = false →
    (∀ k, RowsKept (db.contentsOf k) ((execInsert host db stmt).2.contentsOf k)) ∧
      (execInsert host db stmt).2.symbolDict = db.symbolDict
  onSuccess : (execInsert host db stmt).1.ok = true →
    (execInsert host db stmt).2.contentsOf = withRows host db stmt

/-! ## The condition -/

/-- The time that the clock gives the tick is its own. -/
def keepsTime (now : Int) (msg : TickMessage) : Bool :=
  (msg.stamp now).key = msg.key ∧ unsigned 64 msg.recvTs = unsigned 64 now

def legacyFails (host : Host) (db : Database) (stmt : InsertStmt) : Bool :=
  !(stmt.valueRows.all fun row => row.length = (legacyColumns stmt).length) ||
    host.queue.1.capacity < (legacyTicks host db stmt).length

/-- Ticks beyond the capacity come first, with their own times. -/
def queuedOrder (capacity : Nat) (now : Int) (msgs : List TickMessage) : List TickMessage :=
  msgs.drop capacity ++ (msgs.take capacity).map (.stamp now)

def legacyStrings (stmt : InsertStmt) : List String :=
  (goodRows (legacyColumns stmt) stmt.valueRows).flatMap (tickStrings (legacyColumns stmt))

/-- The statement takes all its rows, or fails without having taken anything. -/
def takesAllOrNothing (host : Host) (db : Database) (stmt : InsertStmt) : Bool :=
  match db.registry.lookup stmt.tableName with
  | some schema =>
    match typedColumns schema stmt with
    | .error _ => true
    | .ok columns =>
      allAccepted host schema.tableId columns stmt.valueRows db ||
        nothingTaken host schema.tableId columns stmt.valueRows db false
  | none =>
    let db' := withStrings db (legacyStrings stmt)
    let ticks := legacyTicks host db stmt
    if legacyFails host db stmt then
      knows db.symbolDict (legacyStrings stmt) &&
        ticksRefused host.arenaSize (queuedOrder host.queue.1.capacity host.env.now ticks) db'
    else
      ticks.all (keepsTime host.env.now) &&
        ticksTaken host.arenaSize (ticks.map (.stamp host.env.now)) db'

/-! ## Tables with a schema -/

section

variable {host : Host} {db : Database} {stmt : InsertStmt} {schema : TableSchema}

theorem orderedColumns_error {table : String} {seen cols : List String} {e : String}
    (h : orderedColumns schema table seen cols = .error e) : e ≠ "" := by
  induction cols generalizing seen with
  | nil => cases h
  | cons col cols ih =>
    unfold orderedColumns at h
    split at h
    · cases h
      simp
    split at h
    · cases h
      simp
    cases hrest : orderedColumns schema table (col.toLower :: seen) cols with
    | error e' =>
      rw [hrest] at h
      cases h
      exact ih hrest
    | ok columns =>
      rw [hrest] at h
      cases h

theorem execInsert_typed (host : Host) (h : db.registry.lookup stmt.tableName = some schema) :
    execInsert host db stmt = match typedColumns schema stmt with
      | .error e => (.failed e, db)
      | .ok columns =>
        insertRows host schema.tableId columns stmt.valueRows.length stmt.valueRows 0 0 db := by
  unfold execInsert
  rw [h]
  rfl

theorem insert_atomic_typed (h : db.registry.lookup stmt.tableName = some schema) :
    InsertAtomic host db stmt ↔ takesAllOrNothing host db stmt := by
  have hexec := execInsert_typed host h
  unfold takesAllOrNothing
  rw [h]
  simp only
  cases hcols : typedColumns schema stmt with
  | error e =>
    rw [hcols] at hexec
    refine iff_of_true ⟨fun _ => ?_, fun hok => ?_⟩ rfl
    · rw [hexec]
      exact ⟨fun _ => .refl _, rfl⟩
    · rw [hexec, ok_failed (orderedColumns_error hcols)] at hok
      cases hok
  | ok columns =>
    show InsertAtomic host db stmt ↔ (allAccepted host schema.tableId columns stmt.valueRows db ||
      nothingTaken host schema.tableId columns stmt.valueRows db false)
    rw [hcols] at hexec
    have hrows : withRows host db stmt =
        (rowMessages host schema.tableId columns stmt.valueRows db.symbolDict).foldl
          (pushMessage (columnsOf db schema.tableId)) db.contentsOf := by
      unfold withRows
      rw [h]
      simp [hcols]
    have hok : (execInsert host db stmt).1.ok =
        allAccepted host schema.tableId columns stmt.valueRows db := by
      rw [hexec, ok_insertRows]
      rfl
    cases hall : allAccepted host schema.tableId columns stmt.valueRows db with
    | true =>
      rw [hall] at hok
      refine iff_of_true ⟨fun hno => ?_, fun _ => ?_⟩ rfl
      · rw [hok] at hno
        cases hno
      · rw [hexec, hrows]
        exact contents_of_allAccepted _ _ _ _ _ _ _ _ hall
    | false =>
      rw [hall] at hok
      constructor
      · intro hatomic
        obtain ⟨hkept, hdict⟩ := hatomic.onError hok
        rw [hexec] at hkept hdict hok
        refine nothingTaken_of_same host schema.tableId columns stmt.valueRows.length
          stmt.valueRows 0 0 db hok (fun k => ?_) ?_
        · rw [(hkept k).rowCount_eq]
        · rw [hdict]
      · intro hnothing
        refine ⟨fun _ => ?_, fun hyes => ?_⟩
        · rw [hexec]
          exact keeps_of_nothingTaken _ _ _ _ _ 0 0 _ hnothing
        · rw [hok] at hyes
          cases hyes

end

/-! ## Tables without a schema -/

section

variable {host : Host} {db : Database} {stmt : InsertStmt}

variable {msgs : List TickMessage} {now : Int}

theorem pushTicks_of_full (now : Int) (msgs : List TickMessage) {queue : RingBuffer TickMessage}
    {held : List TickMessage}
    (h : queue.Holds held) (hfull : held.length = queue.capacity)
    (hle : queue.readPos ≤ queue.writePos) :
    (pushTicks now queue msgs).1 = msgs ∧ (pushTicks now queue msgs).2.Holds held := by
  induction msgs generalizing queue with
  | nil => exact ⟨rfl, h⟩
  | cons msg msgs ih =>
    obtain ⟨queue', hpush, h', hcap, hle'⟩ :=
      RingBuffer.tryPush_of_full (x := msg.stamp now) h hfull hle
    obtain ⟨hrest, hholds⟩ := ih h' (hfull.trans hcap.symm) hle'
    rw [pushTicks, hpush]
    exact ⟨congrArg (msg :: ·) hrest, hholds⟩

/-- A queue in step takes ticks up to its capacity. -/
theorem pushTicks_of_aligned {queue : RingBuffer TickMessage} {held : List TickMessage}
    (h : queue.Holds held) (ha : queue.Aligned held) {room : Nat}
    (hroom : held.length + room = queue.capacity) :
    (pushTicks now queue msgs).1 = msgs.drop room ∧
      (pushTicks now queue msgs).2.Holds (held ++ (msgs.take room).map (.stamp now)) := by
  induction msgs generalizing queue held room with
  | nil => simpa [pushTicks] using h
  | cons msg msgs ih =>
    cases room with
    | zero =>
      have hle : queue.readPos ≤ queue.writePos := by
        rw [ha]
        exact Nat.le_add_right ..
      simpa using pushTicks_of_full now (msg :: msgs) h hroom hle
    | succ room =>
      obtain ⟨queue', hpush, h', ha', hcap⟩ := RingBuffer.tryPush_of_empty (x := msg.stamp now) h ha
        (RingBuffer.slot_at_writePos h ha (by omega))
      have hroom' : (held ++ [msg.stamp now]).length + room = queue'.capacity := by
        rw [length_append, length_singleton, hcap]
        omega
      rw [pushTicks, hpush]
      simpa using ih h' ha' hroom'

/-- The queue is empty, and the write position is the read position. -/
def InStep (queue : TickQueue) : Prop := queue.1.Holds [] ∧ queue.1.Aligned []

theorem InStep.pushTicks {queue : TickQueue} (h : InStep queue) :
    (Storage.pushTicks now queue.1 msgs).1 = msgs.drop queue.1.capacity ∧
      storeOrder queue now msgs = queuedOrder queue.1.capacity now msgs := by
  obtain ⟨hrefused, hholds⟩ := pushTicks_of_aligned h.1 h.2 (Nat.zero_add _)
  refine ⟨hrefused, ?_⟩
  rw [storeOrder, hrefused, RingBuffer.ready_of_holds hholds]
  rfl

theorem execInsert_legacy_db (host : Host) (h : db.registry.lookup stmt.tableName = none) :
    (execInsert host db stmt).2 =
      (storeOrder host.queue host.env.now (legacyTicks host db stmt)).foldl
        (storeTick host.arenaSize) (withStrings db (legacyStrings stmt)) := by
  obtain ⟨hdict, -, -⟩ := rowTicks_spec host (db.registry.getTableId stmt.tableName)
    (legacyColumns stmt) stmt.valueRows db.symbolDict
  unfold execInsert
  rw [h]
  simp only
  rw [show (if stmt.columns.isEmpty then ["symbol", "price", "volume", "timestamp"]
    else stmt.columns) = legacyColumns stmt from rfl, hdict]
  split <;> rfl

theorem execInsert_legacy (hqueue : InStep host.queue)
    (h : db.registry.lookup stmt.tableName = none) :
    (execInsert host db stmt).2 =
        (queuedOrder host.queue.1.capacity host.env.now (legacyTicks host db stmt)).foldl
          (storeTick host.arenaSize) (withStrings db (legacyStrings stmt)) ∧
      (execInsert host db stmt).1.ok = !legacyFails host db stmt := by
  refine ⟨by rw [execInsert_legacy_db host h, hqueue.pushTicks.2], ?_⟩
  obtain ⟨hdict, -, herror⟩ := rowTicks_spec host (db.registry.getTableId stmt.tableName)
    (legacyColumns stmt) stmt.valueRows db.symbolDict
  unfold execInsert legacyFails
  rw [h]
  simp only
  rw [show (if stmt.columns.isEmpty then ["symbol", "price", "volume", "timestamp"]
    else stmt.columns) = legacyColumns stmt from rfl, hdict]
  split at herror
  next hall =>
    rw [herror, hall]
    rw [ok_insertResult, hqueue.pushTicks.1, length_drop]
    unfold legacyTicks
    rw [Bool.not_true, Bool.false_or, ← decide_not, decide_eq_decide]
    omega
  next hsome =>
    obtain ⟨r, hr, hnot⟩ := herror
    rw [hr, Bool.eq_false_of_not_eq_true hsome]
    simp [hnot]

theorem legacyTicks_tableId (host : Host) (h : db.registry.lookup stmt.tableName = none) :
    ∀ msg ∈ legacyTicks host db stmt, msg.tableId = 0 := by
  have hid : db.registry.getTableId stmt.tableName = 0 := by
    unfold SchemaRegistry.getTableId
    rw [h]
  intro msg hmsg
  rw [(rowTicks_spec host (db.registry.getTableId stmt.tableName) (legacyColumns stmt)
    stmt.valueRows db.symbolDict).2.1 msg hmsg, hid]

theorem queuedOrder_tableId (h : ∀ msg ∈ msgs, msg.tableId = 0) (capacity : Nat) (now : Int) :
    ∀ msg ∈ queuedOrder capacity now msgs, msg.tableId = 0 := by
  intro msg hmsg
  rcases mem_append.mp hmsg with hmsg | hmsg
  · exact h msg (mem_of_mem_drop hmsg)
  · obtain ⟨msg', hmsg', rfl⟩ := mem_map.mp hmsg
    exact h msg' (mem_of_mem_take hmsg')

/-- A failing statement has no effect exactly if all strings are known and no tick found room. -/
theorem insert_atomic_fails (hqueue : InStep host.queue)
    (h : db.registry.lookup stmt.tableName = none) (hready : TickReady db)
    (hfails : legacyFails host db stmt) :
    InsertAtomic host db stmt ↔ knows db.symbolDict (legacyStrings stmt) ∧
      ticksRefused host.arenaSize
        (queuedOrder host.queue.1.capacity host.env.now (legacyTicks host db stmt))
        (withStrings db (legacyStrings stmt)) := by
  obtain ⟨hdb, hok⟩ := execInsert_legacy hqueue h
  rw [hfails] at hok
  have hready' : TickReady (withStrings db (legacyStrings stmt)) := hready
  have hids := queuedOrder_tableId (legacyTicks_tableId host h) host.queue.1.capacity host.env.now
  constructor
  · intro hatomic
    obtain ⟨hkept, hdict⟩ := hatomic.onError hok
    rw [hdb] at hkept hdict
    rw [storeAll_symbolDict] at hdict
    refine ⟨knows_of_length (le_of_eq ?_), (cellCount_storeAll _ hready' hids).2.2 ?_⟩
    · exact congrArg (fun d => d.strings.length) hdict
    intro k
    by_cases hk : k.tableId = 0
    · exact cellCount_of_rowsKept (hready k hk) (hready'.storeAll k hk) (hkept k)
    -- Ticks do not reach the partitions of other tables.
    have hnone : cellsOf
        (queuedOrder host.queue.1.capacity host.env.now (legacyTicks host db stmt)) k = 0 := by
      unfold cellsOf
      rw [countP_eq_zero.mpr]
      intro msg hmsg heq
      refine hk ?_
      rw [← of_decide_eq_true heq]
      exact hids msg hmsg
    obtain ⟨h1, h2⟩ := (cellCount_storeAll host.arenaSize hready' hids).1 k
    omega
  · rintro ⟨hknown, hrefused⟩
    refine ⟨fun _ => ?_, fun hyes => ?_⟩
    · rw [hdb]
      refine ⟨fun k => rowsKept_of_refused hready' hids hrefused k, ?_⟩
      rw [storeAll_symbolDict]
      exact internAll_of_knows hknown
    · rw [hok] at hyes
      cases hyes

theorem pushAt_stamp {msg : TickMessage} (h : keepsTime now msg)
    (contents : PartitionKey → List ColumnContents) :
    pushAt contents (msg.stamp now) = pushAt contents msg := by
  unfold keepsTime at h
  rw [decide_eq_true_eq] at h
  obtain ⟨hkey, htime⟩ := h
  have hcells : (msg.stamp now).cells = msg.cells := by
    unfold TickMessage.cells
    rw [htime]
    rfl
  unfold pushAt pushTick
  rw [hkey, hcells]
  rfl

theorem foldl_pushAt_stamp (h : ∀ msg ∈ msgs, keepsTime now msg)
    (contents : PartitionKey → List ColumnContents) :
    (msgs.map (.stamp now)).foldl pushAt contents = msgs.foldl pushAt contents := by
  induction msgs generalizing contents with
  | nil => rfl
  | cons msg msgs ih =>
    rw [map_cons, foldl_cons, pushAt_stamp (h msg mem_cons_self)]
    exact ih (fun m hm => h m (mem_cons_of_mem _ hm)) _

/-- If stamped ticks leave what the ticks would have left, the times are the clock's. -/
theorem keepsTime_of_contents {now : Int} {msgs : List TickMessage} (hready : TickReady db)
    (hids : ∀ msg ∈ msgs, msg.tableId = 0)
    (h : ((msgs.map (.stamp now)).foldl (storeTick host.arenaSize) db).contentsOf =
      msgs.foldl pushAt db.contentsOf) : ∀ msg ∈ msgs, keepsTime now msg := by
  intro msg hmsg
  have hstamped : ∀ m ∈ msgs.map (TickMessage.stamp now), m.tableId = 0 := forall_mem_map.mpr hids
  obtain ⟨l, hl, htimes⟩ := timesOf_storeAll host.arenaSize hready hstamped msg.key
  rw [h, timesOf_pushAt db.contentsOf hready hids, append_cancel_left_eq] at hl
  have hmem : unsigned 64 msg.recvTs ∈ l := by
    rw [← hl]
    exact mem_map_of_mem (mem_filter.mpr ⟨hmsg, by simp⟩)
  obtain ⟨m, hm, hkey, htime⟩ := htimes _ hmem
  obtain ⟨m', -, rfl⟩ := mem_map.mp hm
  unfold keepsTime
  rw [decide_eq_true_eq]
  refine ⟨?_, htime⟩
  have hhour : toHourEpoch now = msg.key.hourEpoch := congrArg PartitionKey.hourEpoch hkey
  unfold TickMessage.key TickMessage.stamp
  rw [hhour]
  rfl

/-- A statement that does not fail stores its rows exactly if its times are the clock's and each
tick finds room. -/
theorem insert_atomic_succeeds (hqueue : InStep host.queue)
    (h : db.registry.lookup stmt.tableName = none)
    (hready : TickReady db) (hfails : legacyFails host db stmt = false) :
    InsertAtomic host db stmt ↔ (∀ msg ∈ legacyTicks host db stmt, keepsTime host.env.now msg) ∧
      ticksTaken host.arenaSize ((legacyTicks host db stmt).map (.stamp host.env.now))
        (withStrings db (legacyStrings stmt)) := by
  obtain ⟨hdb, hok⟩ := execInsert_legacy hqueue h
  have hready' : TickReady (withStrings db (legacyStrings stmt)) := hready
  have hids := legacyTicks_tableId host h
  have horder : queuedOrder host.queue.1.capacity host.env.now (legacyTicks host db stmt) =
      (legacyTicks host db stmt).map (.stamp host.env.now) := by
    unfold legacyFails at hfails
    rw [Bool.or_eq_false_iff, decide_eq_false_iff_not, not_lt] at hfails
    unfold queuedOrder
    rw [drop_eq_nil_of_le hfails.2, take_of_length_le hfails.2, nil_append]
  have hstamped : ∀ m ∈ (legacyTicks host db stmt).map (TickMessage.stamp host.env.now),
      m.tableId = 0 := forall_mem_map.mpr hids
  have hrows : withRows host db stmt = (legacyTicks host db stmt).foldl pushAt
      (withStrings db (legacyStrings stmt)).contentsOf := by
    unfold withRows
    rw [h]
    rfl
  rw [hfails] at hok
  rw [horder] at hdb
  constructor
  · intro hatomic
    have hcont := hatomic.onSuccess hok
    rw [hdb, hrows] at hcont
    have htime := keepsTime_of_contents hready' hids hcont
    refine ⟨htime, (cellCount_storeAll _ hready' hstamped).2.1 fun k => ?_⟩
    dsimp only
    rw [hcont, ← foldl_pushAt_stamp htime, cellCount_pushAt _ hready' hstamped]
  · rintro ⟨htime, htaken⟩
    refine ⟨fun hno => ?_, fun _ => ?_⟩
    · rw [hok] at hno
      cases hno
    · rw [hdb, hrows, contents_of_taken hready' hstamped htaken, foldl_pushAt_stamp htime]

end

/-! ## Legacy tables only hold ticks -/

theorem contentsOf_ingestTypedRow {db : Database} {row : TypedRowMessage} {k : PartitionKey}
    (arenaSize : Fin (2 ^ 32)) (hk : k.tableId = 0) :
    (ingestTypedRow arenaSize db row).2.contentsOf k = db.contentsOf k := by
  have hspec := ingestTypedRow_spec arenaSize db row
  unfold Database.contentsOf
  cases hschema : acceptedSchema db row with
  | none =>
    rw [hschema] at hspec
    rw [hspec.2 k]
  | some schema =>
    rw [hschema] at hspec
    have hne : k ≠ row.key := by
      rintro rfl
      unfold acceptedSchema at hschema
      rw [if_pos (.inl hk)] at hschema
      cases hschema
    rw [hspec.2.2 k, if_neg hne]

theorem contentsOf_insertRows (host : Host) (tableId : TableId) (columns : List ColumnDef)
    (total : Nat) (rows : List (List InsertValue)) (inserted failed : Nat) (db : Database)
    {k : PartitionKey} (hk : k.tableId = 0) :
    (insertRows host tableId columns total rows inserted failed db).2.contentsOf k =
      db.contentsOf k := by
  induction rows generalizing inserted failed db with
  | nil => rw [(insertRows_nil host tableId columns total inserted failed db).2.1]
  | cons row rows ih =>
    have hrow : (afterRow host tableId columns row db).contentsOf k = db.contentsOf k :=
      contentsOf_ingestTypedRow host.arenaSize hk
    obtain ⟨-, heq⟩ | ⟨-, ⟨-, e, -, heq⟩ | ⟨-, -, ⟨-, heq⟩ | ⟨-, heq⟩⟩⟩ :=
      insertRows_cons host tableId columns total rows inserted failed db row
    · rw [heq]
    · rw [heq]
      rfl
    · rw [heq, ih, hrow]
    · rw [heq, ih, hrow]

/-- The partitions of tables without a schema keep the columns of ticks. -/
theorem TickReady.execInsert {db : Database} (h : TickReady db) (host : Host) (stmt : InsertStmt) :
    TickReady (execInsert host db stmt).2 := by
  cases hlookup : db.registry.lookup stmt.tableName with
  | none =>
    rw [execInsert_legacy_db host hlookup]
    have hready : TickReady (withStrings db (legacyStrings stmt)) := h
    exact hready.storeAll
  | some schema =>
    rw [execInsert_typed host hlookup]
    intro k hk
    split
    · exact h k hk
    · rw [contentsOf_insertRows _ _ _ _ _ _ _ _ hk]
      exact h k hk

/-- However statements for tables with and without a schema follow each other, whether they fail or
not, the rows without a table stay in the columns of ticks. -/
theorem inserts_tickReady (registry : SchemaRegistry) (stmts : List (Host × InsertStmt)) :
    TickReady (stmts.foldl (fun db e => (execInsert e.1 db e.2).2)
      { registry, partitions := [], keys_nodup := nodup_nil }) := by
  refine stmts.foldlRecOn _ (fun k _ => .inl rfl) fun db hready e _ => ?_
  exact TickReady.execInsert hready e.1 e.2

def oneColumn : Database where
  registry := .insert "t" { columns := [⟨"v", .int64⟩], tableId := 1 } ∅
  partitions := []
  keys_nodup := nodup_nil

/-- The tick queue after one push that failed. -/
def skewedHost : Host where
  env := { now := 0 }
  queue := ⟨{ defaultQueue.1 with writePos := 1 }, rfl⟩

end Zepto.Sql
