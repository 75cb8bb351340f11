import Zepto.Sql.Insert
import Zepto.Storage.TickRuns

/-!
# The rows of an INSERT

What `insertRows` leaves of the rows of a statement into a table of the registry. Whether a value
fits depends on the statement alone (`valueFits`); the strings of a row are interned up to the first
value that does not (`buildRow_spec`). The statement goes through exactly if all rows go in
(`ok_insertRows`), and then they stand behind what was there (`contents_of_allAccepted`).
-/

namespace Zepto.Sql

open Zepto.Lib Zepto.Storage Option List

/-! ## The dictionary -/

def internAll (dict : StringDictionary) (strings : List String) : StringDictionary :=
  strings.foldl (fun d s => (d.intern s).2) dict

def knows (dict : StringDictionary) (strings : List String) : Bool :=
  strings.all fun s => (dict.index.lookup s).isSome

section

variable {dict : StringDictionary} {s : String} {strings : List String}

theorem intern_of_isSome (h : (dict.index.lookup s).isSome) : (dict.intern s).2 = dict := by
  unfold StringDictionary.intern
  obtain ⟨code, hcode⟩ := isSome_iff_exists.mp h
  rw [hcode]

theorem length_intern_of_none (h : dict.index.lookup s = none) :
    (dict.intern s).2.strings.length = dict.strings.length + 1 := by
  unfold StringDictionary.intern
  rw [h]
  simp

theorem length_le_intern (dict : StringDictionary) (s : String) :
    dict.strings.length ≤ (dict.intern s).2.strings.length := by
  cases h : dict.index.lookup s with
  | none => rw [length_intern_of_none h]; omega
  | some code => rw [intern_of_isSome (by rw [h]; rfl)]

theorem length_le_internAll (dict : StringDictionary) (strings : List String) :
    dict.strings.length ≤ (internAll dict strings).strings.length := by
  induction strings generalizing dict with
  | nil => exact le_refl _
  | cons s strings ih => exact le_trans (length_le_intern dict s) (ih _)

theorem internAll_of_knows (h : knows dict strings) : internAll dict strings = dict := by
  induction strings with
  | nil => rfl
  | cons s strings ih =>
    rw [knows, all_cons, Bool.and_eq_true] at h
    rw [internAll, foldl_cons, intern_of_isSome h.1]
    exact ih h.2

theorem knows_of_length (h : (internAll dict strings).strings.length ≤ dict.strings.length) :
    knows dict strings := by
  induction strings generalizing dict with
  | nil => rfl
  | cons s strings ih =>
    rw [internAll, foldl_cons] at h
    cases hs : dict.index.lookup s with
    | none =>
      have hle : (dict.intern s).2.strings.length ≤
          ((strings.foldl (fun d s => (d.intern s).2) (dict.intern s).2)).strings.length :=
        length_le_internAll _ strings
      rw [length_intern_of_none hs] at hle
      omega
    | some code =>
      rw [intern_of_isSome (by rw [hs]; rfl)] at h
      rw [knows, all_cons, hs]
      exact ih h

theorem lookup_intern (dict : StringDictionary) (s : String) :
    (dict.intern s).2.index.lookup s = some (dict.intern s).1 := by
  unfold StringDictionary.intern
  split
  · assumption
  · exact AList.lookup_insert _

theorem lookup_intern_of_some {t : String} {code : SymbolId} (h : dict.index.lookup t = some code)
    (s : String) : (dict.intern s).2.index.lookup t = some code := by
  unfold StringDictionary.intern
  split
  · exact h
  rename_i hs
  have hne : t ≠ s := by
    rintro rfl
    rw [h] at hs
    cases hs
  exact (AList.lookup_insert_ne hne).trans h

end

section

variable {dict : StringDictionary} {values : List TypedColumnValue} {column : ColumnDef}
  {value : InsertValue}

/-- The strings of the values have the codes of the values. -/
def Bound (dict : StringDictionary) (values : List TypedColumnValue) : Prop :=
  ∀ v ∈ values, ∀ s, v.stringValue = some s → dict.index.lookup s = some v.u32

theorem bindCodes_of_bound (h : Bound dict values) : bindCodes dict values = (true, dict) := by
  induction values with
  | nil => rfl
  | cons v values ih =>
    have hrest := ih fun w hw => h w (mem_cons_of_mem _ hw)
    unfold bindCodes
    split
    next s hs =>
      have hcode : dict.ensureCode v.u32 s = (true, dict) := by
        unfold StringDictionary.ensureCode
        rw [h v mem_cons_self s hs]
        simp
      split
      · simp only [hcode]
        exact hrest
      · exact hrest
    · exact hrest

/-! ## Values -/

def internedString (column : ColumnDef) (value : InsertValue) : Option String :=
  match column.type, value with
  | .symbol, .string s | .string, .string s => some s
  | _, _ => none

def typeFits (column : ColumnDef) (value : InsertValue) : Bool :=
  match column.type with
  | .int32 => value.asI64.any fun i => -2 ^ 31 ≤ i ∧ i < 2 ^ 31
  | .int64 | .timestampNs => value.asI64.isSome
  | .float32 | .float64 => value.asF64.isSome
  | .symbol =>
    match value with
    | .string _ => true
    | value => 0 ≤ value.asI64.getD 0 ∧ value.asI64.getD 0 < 2 ^ 32
  | .string =>
    match value with
    | .string _ => true
    | _ => false
  | .bool =>
    match value with
    | .string s => (parseBoolString s).isSome
    | _ => true

/-- The number of a value as a symbol id; codes and truth values are in range. -/
def symbolNumber (column : ColumnDef) (value : InsertValue) : Int :=
  match column.type with
  | .int32 | .int64 | .timestampNs => value.asI64.getD 0
  | .float32 | .float64 => (value.asF64.map intOfDouble).getD 0
  | .symbol | .string | .bool => 0

/-- The value is good for its column; for `symbol` it has to be a symbol id. -/
def valueFits (column : ColumnDef) (value : InsertValue) : Bool :=
  typeFits column value &&
    (column.name.toLower ≠ "symbol" ||
      (0 ≤ symbolNumber column value ∧ symbolNumber column value < 2 ^ 32 : Bool))

/-- The strings of a row up to its first value that is not good. -/
def rowStrings : List (ColumnDef × InsertValue) → List String
  | [] => []
  | (column, value) :: rest =>
    if valueFits column value then (internedString column value).toList ++ rowStrings rest else []

theorem error_of_typeFits (h : typeFits column value = false) (dict : StringDictionary) :
    ∃ e, e ≠ "" ∧ materializeInsertValue column value dict = (.error e, dict) := by
  obtain ⟨name, type⟩ := column
  have hrange : ∀ {i lo hi : Int}, decide (lo ≤ i ∧ i < hi) = false → i < lo ∨ hi ≤ i := by
    intro i lo hi h
    rw [decide_eq_false_iff_not] at h
    omega
  unfold materializeInsertValue
  cases type <;> cases value <;>
    simp only [typeFits, InsertValue.asI64, InsertValue.asF64,
      isSome_some, Bool.true_eq_false] at h ⊢
  case int32.int i => exact ⟨_, by simp, if_pos (hrange h)⟩
  case int32.float f | symbol.int i | symbol.float f => exact ⟨_, by simp, if_pos (hrange h)⟩
  case bool.string s =>
    rw [isSome_eq_false_iff, isNone_iff_eq_none] at h
    rw [h]
    exact ⟨_, by simp, rfl⟩
  all_goals exact ⟨_, by simp, rfl⟩

/-- What a value that fits leaves in the row and in the dictionary. -/
structure Materialized (column : ColumnDef) (value : InsertValue) (dict : StringDictionary)
    (v : TypedColumnValue) : Prop where
  eq : materializeInsertValue column value dict =
    (.ok v, internAll dict (internedString column value).toList)
  bound : ∀ s, v.stringValue = some s →
    (internAll dict (internedString column value).toList).index.lookup s = some v.u32
  range : (typedValueAsI64 v < 0 ∨ 2 ^ 32 ≤ typedValueAsI64 v) ↔
    ¬(0 ≤ symbolNumber column value ∧ symbolNumber column value < 2 ^ 32)

theorem materialized_of_typeFits (h : typeFits column value) (dict : StringDictionary) :
    ∃ v, Materialized column value dict v := by
  obtain ⟨name, type⟩ := column
  have hrange : ∀ {i lo hi : Int}, decide (lo ≤ i ∧ i < hi) → ¬(i < lo ∨ hi ≤ i) := by
    intro i lo hi h
    rw [decide_eq_true_eq] at h
    omega
  -- A value without a string leaves the dictionary alone.
  have hplain : ∀ {v : TypedColumnValue},
      internedString ⟨name, type⟩ value = none → v.stringValue = none →
      materializeInsertValue ⟨name, type⟩ value dict = (.ok v, dict) →
      ((typedValueAsI64 v < 0 ∨ 2 ^ 32 ≤ typedValueAsI64 v) ↔
        ¬(0 ≤ symbolNumber ⟨name, type⟩ value ∧ symbolNumber ⟨name, type⟩ value < 2 ^ 32)) →
      ∃ v, Materialized ⟨name, type⟩ value dict v := by
    intro v hstring hv heq hnumber
    refine ⟨v, ?_, fun s hs => ?_, hnumber⟩
    · rw [heq, hstring]
      rfl
    · rw [hv] at hs
      cases hs
  have hbits : ∀ {w : Nat} (x : BitVec w), w ≤ 32 →
      (((x.toNat : Int) < 0 ∨ 2 ^ 32 ≤ (x.toNat : Int)) ↔
        ¬((0 : Int) ≤ 0 ∧ (0 : Int) < 2 ^ 32)) := by
    intro w x hw
    have hpow : 2 ^ w ≤ 2 ^ 32 := Nat.pow_le_pow_right (by decide) hw
    omega
  have hnum : ∀ i : Int, (i < 0 ∨ 2 ^ 32 ≤ i) ↔ ¬(0 ≤ i ∧ i < 2 ^ 32) := by
    omega
  cases type <;> cases value <;>
    simp only [typeFits, InsertValue.asI64, InsertValue.asF64, any_none, isSome_none,
      Bool.false_eq_true] at h
  case int32.int | int32.float => exact hplain rfl rfl (if_neg (hrange h)) (hnum _)
  case symbol.int | symbol.float =>
    exact hplain rfl rfl (if_neg (hrange h)) (hbits _ (by decide))
  case symbol.string s | string.string s =>
    refine ⟨_, rfl, fun t ht => ?_, hbits _ (by decide)⟩
    cases ht
    exact lookup_intern dict s
  case bool.int | bool.float => exact hplain rfl rfl rfl (hbits _ (by decide))
  case bool.string s =>
    obtain ⟨b, hb⟩ := isSome_iff_exists.mp h
    refine hplain (v := { name, type := .bool, u8 := b }) rfl rfl ?_ (hbits b (by decide))
    unfold materializeInsertValue
    simp [hb]
  all_goals exact hplain rfl rfl rfl (hnum _)

/-! ## Rows -/

theorem internAll_append (dict : StringDictionary) (strings strings' : List String) :
    internAll dict (strings ++ strings') = internAll (internAll dict strings) strings' :=
  foldl_append

theorem lookup_internAll_of_some {t : String} {code : SymbolId}
    (h : dict.index.lookup t = some code) (strings : List String) :
    (internAll dict strings).index.lookup t = some code := by
  induction strings generalizing dict with
  | nil => exact h
  | cons s strings ih => exact ih (lookup_intern_of_some h s)

theorem Bound.internAll (h : Bound dict values) (strings : List String) :
    Bound (internAll dict strings) values :=
  fun v hv s hs => lookup_internAll_of_some (h v hv s hs) strings

theorem add_spec (b : RowBuild) (column : ColumnDef) (v : TypedColumnValue) :
    if column.name.toLower = "symbol" ∧ (typedValueAsI64 v < 0 ∨ 2 ^ 32 ≤ typedValueAsI64 v) then
      ∃ e, e ≠ "" ∧ b.add column v = .error e
    else ∃ b', b.add column v = .ok b' ∧ b'.values = b.values ++ [v] := by
  unfold RowBuild.add
  simp only
  split
  · exact ⟨_, by simp, rfl⟩
  · exact ⟨_, rfl, rfl⟩

theorem valueFits_eq_false (htype : typeFits column value) :
    valueFits column value = false ↔ column.name.toLower = "symbol" ∧
      ¬(0 ≤ symbolNumber column value ∧ symbolNumber column value < 2 ^ 32) := by
  rw [valueFits, htype]
  simp

/-- A row of fitting values becomes a message; otherwise the first that does not fit is named. -/
theorem buildRow_spec (pairs : List (ColumnDef × InsertValue)) (b : RowBuild)
    (dict : StringDictionary) (hb : Bound dict b.values) :
    if pairs.all fun e => valueFits e.1 e.2 then
      ∃ b', buildRow pairs b dict = (.ok b', internAll dict (rowStrings pairs)) ∧
        Bound (internAll dict (rowStrings pairs)) b'.values
    else ∃ e, e ≠ "" ∧ buildRow pairs b dict = (.error e, internAll dict (rowStrings pairs)) := by
  induction pairs generalizing b dict with
  | nil => exact ⟨b, rfl, hb⟩
  | cons pair pairs ih =>
    obtain ⟨column, value⟩ := pair
    rw [all_cons]
    unfold buildRow rowStrings
    cases htype : typeFits column value with
    | false =>
      have hfits : valueFits column value = false := by rw [valueFits, htype, Bool.false_and]
      obtain ⟨e, he, heq⟩ := error_of_typeFits htype dict
      rw [hfits, heq]
      exact ⟨e, he, rfl⟩
    | true =>
      obtain ⟨v, hv⟩ := materialized_of_typeFits htype dict
      have hadd := add_spec b column v
      simp only [hv.range] at hadd
      rw [hv.eq]
      simp only
      cases hfits : valueFits column value with
      | false =>
        rw [if_pos ((valueFits_eq_false htype).mp hfits)] at hadd
        obtain ⟨e, he, heq⟩ := hadd
        -- Only a number can be out of range.
        have hstring : internedString column value = none := by
          have hrange := ((valueFits_eq_false htype).mp hfits).2
          unfold symbolNumber at hrange
          unfold internedString
          split at hrange <;> simp_all
        rw [heq, hstring]
        exact ⟨e, he, rfl⟩
      | true =>
        rw [if_neg fun hbad => by rw [(valueFits_eq_false htype).mpr hbad] at hfits; cases hfits]
          at hadd
        obtain ⟨b', heq, hvalues⟩ := hadd
        rw [heq, if_pos rfl, internAll_append]
        refine ih _ _ ?_
        rw [hvalues]
        intro w hw s hs
        rcases mem_append.mp hw with hw | hw
        · exact hb.internAll _ w hw s hs
        · rw [mem_singleton.mp hw] at hs ⊢
          exact hv.bound s hs

def RowBuild.message (host : Host) (tableId : TableId) (b : RowBuild) : TypedRowMessage :=
  { tableId, symbolId := b.symbolId
    timestamp := b.namedTimestamp.getD (b.typedTimestamp.getD host.env.now)
    columns := b.values }

def rowMessage (host : Host) (tableId : TableId) (columns : List ColumnDef) (row : List InsertValue)
    (dict : StringDictionary) : TypedRowMessage :=
  match (buildRow (columns.zip row) {} dict).1 with
  | .ok b => b.message host tableId
  | .error _ => { tableId, timestamp := host.env.now, columns := [] }

def withStrings (db : Database) (strings : List String) : Database :=
  { db with symbolDict := internAll db.symbolDict strings }

def columnsOf (db : Database) (id : TableId) : List ColumnDef :=
  ((db.registry.getById id).map fun e => e.2.columns).getD []

end

section

variable {db : Database} {arenaSize : Fin (2 ^ 32)} {row : TypedRowMessage}

theorem editPartition_symbolDict {α : Type} (db : Database) (arenaSize : Fin (2 ^ 32))
    (key : PartitionKey) (f : PartitionEdit α) :
    (db.editPartition arenaSize key f).2.symbolDict = db.symbolDict := by
  unfold Database.editPartition
  split <;> rfl

theorem ingestTypedRow_symbolDict (h : Bound db.symbolDict row.columns) :
    (ingestTypedRow arenaSize db row).2.symbolDict = db.symbolDict := by
  unfold ingestTypedRow
  split
  · rfl
  split
  · rfl
  split
  · rfl
  · rw [bindCodes_of_bound h]
    simp only [Bool.not_true, Bool.false_eq_true, if_false]
    split <;> exact editPartition_symbolDict _ _ _ _

theorem columnsOf_ingestTypedRow (arenaSize : Fin (2 ^ 32)) (db : Database)
    (row : TypedRowMessage) :
    columnsOf (ingestTypedRow arenaSize db row).2 row.tableId = columnsOf db row.tableId := by
  unfold ingestTypedRow
  split
  · rfl
  cases hget : db.registry.getById row.tableId with
  | none => rfl
  | some e =>
    simp only
    split
    · rfl
    split
    · rfl
    split
    · unfold columnsOf
      simp only [Database.editPartition_registry]
      rw [getById_markHasData hget, hget]
      rfl
    · unfold columnsOf
      rw [Database.editPartition_registry]

theorem columnsOf_of_accepted {schema : TableSchema} (h : acceptedSchema db row = some schema) :
    columnsOf db row.tableId = schema.columns := by
  unfold acceptedSchema at h
  split at h
  · cases h
  obtain ⟨e, hget, he⟩ := bind_eq_some_iff.mp h
  unfold columnsOf
  rw [hget]
  split at he
  · cases he
    rfl
  · cases he

end

/-! ## The rows of a statement -/

def pushMessage (columns : List ColumnDef) (contents : PartitionKey → List ColumnContents)
    (msg : TypedRowMessage) : PartitionKey → List ColumnContents :=
  fun k => if k = msg.key then pushRow columns msg.columns (contents k) else contents k

section

variable (host : Host) (tableId : TableId) (columns : List ColumnDef)

def rowMessages : List (List InsertValue) → StringDictionary → List TypedRowMessage
  | [], _ => []
  | row :: rows, dict =>
    rowMessage host tableId columns row dict ::
      rowMessages rows (internAll dict (rowStrings (columns.zip row)))

def valuesFit (row : List InsertValue) : Bool :=
  (columns.zip row).all fun e => valueFits e.1 e.2

def rowAccepted (row : List InsertValue) (db : Database) : Bool :=
  (withStrings db (rowStrings (columns.zip row))).accepts host.arenaSize
    (rowMessage host tableId columns row db.symbolDict)

def afterRow (row : List InsertValue) (db : Database) : Database :=
  (ingestTypedRow host.arenaSize (withStrings db (rowStrings (columns.zip row)))
    (rowMessage host tableId columns row db.symbolDict)).2

def allAccepted : List (List InsertValue) → Database → Bool
  | [], _ => true
  | row :: rows, db =>
    row.length = columns.length && valuesFit columns row &&
      rowAccepted host tableId columns row db &&
      allAccepted rows (afterRow host tableId columns row db)

/-- The statement ends in an error, no row before gets into its partition, and all strings are
known; `refused` tells whether a row was refused. -/
def nothingTaken : List (List InsertValue) → Database → Bool → Bool
  | [], _, refused => refused
  | row :: rows, db, _ =>
    row.length ≠ columns.length ||
      knows db.symbolDict (rowStrings (columns.zip row)) &&
        (!valuesFit columns row ||
          !rowAccepted host tableId columns row db &&
            nothingTaken rows (afterRow host tableId columns row db) true)

variable {row : List InsertValue}

structure AfterRow (row : List InsertValue) (db : Database) : Prop where
  symbolDict : (afterRow host tableId columns row db).symbolDict =
    internAll db.symbolDict (rowStrings (columns.zip row))
  accepted : rowAccepted host tableId columns row db = true →
    (afterRow host tableId columns row db).contentsOf = pushMessage (columnsOf db tableId)
      db.contentsOf (rowMessage host tableId columns row db.symbolDict) ∧
    columnsOf (afterRow host tableId columns row db) tableId = columnsOf db tableId ∧
    columnsOf db tableId ≠ []
  refused : rowAccepted host tableId columns row db = false →
    ∀ k, RowsKept (db.contentsOf k) ((afterRow host tableId columns row db).contentsOf k)

variable (total : Nat) (rows : List (List InsertValue)) (inserted failed : Nat) (db : Database)

theorem insertRows_cons (row : List InsertValue) :
    let r := insertRows host tableId columns total (row :: rows) inserted failed db
    (row.length ≠ columns.length ∧ r = (columnCountError columns.length row.length, db)) ∨
    row.length = columns.length ∧ ((valuesFit columns row = false ∧
          ∃ e, e ≠ "" ∧ r = (.failed e, withStrings db (rowStrings (columns.zip row)))) ∨
        valuesFit columns row ∧ AfterRow host tableId columns row db ∧
          ((rowAccepted host tableId columns row db ∧
              r = insertRows host tableId columns total rows (inserted + 1) failed
                (afterRow host tableId columns row db)) ∨
            (rowAccepted host tableId columns row db = false ∧
              r = insertRows host tableId columns total rows inserted (failed + 1)
                (afterRow host tableId columns row db)))) := by
  intro r
  by_cases hlen : row.length = columns.length
  swap
  · exact .inl ⟨hlen, if_pos hlen⟩
  refine .inr ⟨hlen, ?_⟩
  have hr : r = _ := if_neg (not_not_intro hlen)
  have hbuild := buildRow_spec (columns.zip row) {} db.symbolDict fun v hv => by cases hv
  split at hbuild
  next hfits =>
    obtain ⟨b, heq, hbound⟩ := hbuild
    have hmsg : rowMessage host tableId columns row db.symbolDict = b.message host tableId := by
      unfold rowMessage
      rw [heq]
    obtain ⟨hanswer, hpush, hkeep⟩ := Database.ingestTypedRow_contents
      (withStrings db (rowStrings (columns.zip row))) host.arenaSize (b.message host tableId)
    rw [← hmsg] at hanswer hpush hkeep
    refine .inr ⟨hfits, ⟨?_, fun hacc => ?_, hkeep⟩, ?_⟩
    · unfold afterRow
      rw [hmsg, ingestTypedRow_symbolDict]
      · rfl
      · exact hbound
    · obtain ⟨schema, hschema, hne, hcont⟩ := hpush hacc
      have hcols := columnsOf_of_accepted hschema
      have hsame := columnsOf_ingestTypedRow host.arenaSize
        (withStrings db (rowStrings (columns.zip row)))
        (rowMessage host tableId columns row db.symbolDict)
      have hid : (rowMessage host tableId columns row db.symbolDict).tableId = tableId := by
        rw [hmsg]
        rfl
      rw [hid] at hcols hsame
      have hdb : columnsOf db tableId = schema.columns := hcols
      refine ⟨?_, hsame, hdb ▸ hne⟩
      funext k
      rw [hdb]
      exact hcont k
    · unfold rowAccepted afterRow
      rw [hr, heq, ← hanswer, hmsg]
      cases h : (ingestTypedRow host.arenaSize (withStrings db (rowStrings (columns.zip row)))
        (b.message host tableId)).1
      · exact .inr ⟨rfl, if_neg (by rw [← Bool.not_eq_true] at h; exact h)⟩
      · exact .inl ⟨rfl, if_pos h⟩
  next hfits =>
    obtain ⟨e, he, heq⟩ := hbuild
    rw [hr, heq]
    exact .inl ⟨Bool.eq_false_of_not_eq_true hfits, e, he, rfl⟩

theorem ok_failed {e : String} (h : e ≠ "") : (QueryResult.failed e).ok = false := by
  simpa [QueryResult.ok, QueryResult.failed] using h

theorem ok_columnCountError (expected got : Nat) : (columnCountError expected got).ok = false :=
  ok_failed (by simp)

theorem ok_insertResult (inserted failed total : Nat) :
    (insertResult inserted failed total).ok = decide (failed = 0) := by
  unfold insertResult
  split
  · rw [ok_failed (by simp)]
    symm
    rw [decide_eq_false_iff_not]
    omega
  next h =>
    rw [show failed = 0 by omega]
    rfl

theorem insertRows_nil :
    let r := insertRows host tableId columns total [] inserted failed db
    r.1 = insertResult inserted failed total ∧ r.2.contentsOf = db.contentsOf ∧
      r.2.symbolDict = db.symbolDict := by
  unfold insertRows
  refine ⟨rfl, ?_, ?_⟩
  all_goals
    split
    · split <;> rfl
    · rfl

/-- The statement is answered without an error exactly if all rows go in. -/
theorem ok_insertRows : (insertRows host tableId columns total rows inserted failed db).1.ok =
      (decide (failed = 0) && allAccepted host tableId columns rows db) := by
  induction rows generalizing inserted failed db with
  | nil =>
    rw [(insertRows_nil host tableId columns total inserted failed db).1, ok_insertResult,
      allAccepted,
      Bool.and_true]
  | cons row rows ih =>
    unfold allAccepted
    obtain ⟨hlen, heq⟩ | ⟨hlen, ⟨hfits, e, he, heq⟩ | ⟨hfits, -, ⟨hacc, heq⟩ | ⟨hacc, heq⟩⟩⟩ :=
      insertRows_cons host tableId columns total rows inserted failed db row
    · rw [heq, ok_columnCountError]
      simp [hlen]
    · rw [heq, ok_failed he]
      simp [hfits]
    · rw [heq, ih]
      simp [hlen, hfits, hacc]
    · rw [heq, ih]
      simp [hacc]

/-- Rows that all go in stand behind what was there. -/
theorem contents_of_allAccepted (h : allAccepted host tableId columns rows db) :
    (insertRows host tableId columns total rows inserted failed db).2.contentsOf =
      (rowMessages host tableId columns rows db.symbolDict).foldl
        (pushMessage (columnsOf db tableId)) db.contentsOf := by
  induction rows generalizing inserted failed db with
  | nil => exact (insertRows_nil host tableId columns total inserted failed db).2.1
  | cons row rows ih =>
    unfold allAccepted at h
    simp only [Bool.and_eq_true, decide_eq_true_eq] at h
    obtain ⟨⟨⟨hlen, hfits⟩, hacc⟩, hrest⟩ := h
    obtain ⟨hrow, heq⟩ : AfterRow host tableId columns row db ∧ _ = insertRows _ _ _ _ _ _ _ _ := by
      simpa [hlen, hfits, hacc] using
        insertRows_cons host tableId columns total rows inserted failed db row
    obtain ⟨hcont, hcols, -⟩ := hrow.accepted hacc
    rw [heq, ih _ _ _ hrest, hrow.symbolDict, hcont, hcols]
    rfl

/-- Rows never get fewer, and neither do the strings. -/
theorem insertRows_grows : (∀ k, rowCount (db.contentsOf k) ≤ rowCount
      ((insertRows host tableId columns total rows inserted failed db).2.contentsOf k)) ∧
    db.symbolDict.strings.length ≤ (insertRows host tableId columns total rows inserted failed
      db).2.symbolDict.strings.length := by
  induction rows generalizing inserted failed db with
  | nil =>
    obtain ⟨-, hcont, hdict⟩ := insertRows_nil host tableId columns total inserted failed db
    rw [hcont, hdict]
    exact ⟨fun _ => le_refl _, le_refl _⟩
  | cons row rows ih =>
    obtain ⟨-, heq⟩ | ⟨-, ⟨-, e, -, heq⟩ | ⟨-, hrow, h⟩⟩ :=
      insertRows_cons host tableId columns total rows inserted failed db row
    · rw [heq]
      exact ⟨fun _ => le_refl _, le_refl _⟩
    · rw [heq]
      exact ⟨fun _ => le_refl _, length_le_internAll _ _⟩
    have hstrings : db.symbolDict.strings.length ≤
        (afterRow host tableId columns row db).symbolDict.strings.length := by
      rw [hrow.symbolDict]
      exact length_le_internAll _ _
    have hrows (k : PartitionKey) : rowCount (db.contentsOf k) ≤
        rowCount ((afterRow host tableId columns row db).contentsOf k) := by
      cases hacc : rowAccepted host tableId columns row db with
      | true =>
        obtain ⟨hcont, -, hne⟩ := hrow.accepted hacc
        rw [hcont, pushMessage]
        split
        · rw [rowCount_pushRow hne]
          exact Nat.le_succ _
        · exact le_refl _
      | false => exact le_of_eq (hrow.refused hacc k).rowCount_eq.symm
    obtain ⟨-, heq⟩ | ⟨-, heq⟩ := h
    all_goals
      rw [heq]
      exact ⟨fun k => le_trans (hrows k) ((ih _ _ _).1 k), le_trans hstrings (ih _ _ _).2⟩

theorem keeps_of_nothingTaken
    (h : nothingTaken host tableId columns rows db (decide (0 < failed))) :
    (∀ k, RowsKept (db.contentsOf k)
      ((insertRows host tableId columns total rows inserted failed db).2.contentsOf k)) ∧
    (insertRows host tableId columns total rows inserted failed db).2.symbolDict =
      db.symbolDict := by
  induction rows generalizing inserted failed db with
  | nil =>
    obtain ⟨-, hcont, hdict⟩ := insertRows_nil host tableId columns total inserted failed db
    rw [hcont]
    exact ⟨fun _ => .refl _, hdict⟩
  | cons row rows ih =>
    unfold nothingTaken at h
    obtain ⟨-, heq⟩ | ⟨hlen, hcases⟩ :=
      insertRows_cons host tableId columns total rows inserted failed db row
    · rw [heq]
      exact ⟨fun _ => .refl _, rfl⟩
    simp only [hlen, ne_eq, not_true_eq_false, decide_false, Bool.false_or, Bool.and_eq_true] at h
    obtain ⟨hknown, h⟩ := h
    have hsame := internAll_of_knows hknown
    obtain ⟨-, e, -, heq⟩ | ⟨hfits, hrow, ⟨hacc, -⟩ | ⟨hacc, heq⟩⟩ := hcases
    · rw [heq]
      exact ⟨fun _ => .refl _, hsame⟩
    · simp [hfits, hacc] at h
    obtain ⟨hkeeps, hdict⟩ := ih inserted (failed + 1) (afterRow host tableId columns row db)
      (by simpa [hfits, hacc] using h)
    rw [heq]
    exact ⟨fun k => (hrow.refused hacc k).trans (hkeeps k),
      hdict.trans (hrow.symbolDict.trans hsame)⟩

/-- A statement that fails without a new row or string has taken nothing. -/
theorem nothingTaken_of_same
    (herror : (insertRows host tableId columns total rows inserted failed db).1.ok = false)
    (hrows : ∀ k, rowCount
      ((insertRows host tableId columns total rows inserted failed db).2.contentsOf k) ≤
        rowCount (db.contentsOf k))
    (hdict :
      (insertRows host tableId columns total rows inserted failed db).2.symbolDict.strings.length ≤
        db.symbolDict.strings.length) :
    nothingTaken host tableId columns rows db (decide (0 < failed)) := by
  induction rows generalizing inserted failed db with
  | nil =>
    rw [(insertRows_nil host tableId columns total inserted failed db).1, ok_insertResult,
      decide_eq_false_iff_not] at herror
    rw [nothingTaken, decide_eq_true_eq]
    omega
  | cons row rows ih =>
    unfold nothingTaken
    obtain ⟨hlen, -⟩ | ⟨hlen, ⟨hfits, e, -, heq⟩ | ⟨hfits, hrow, ⟨hacc, heq⟩ | ⟨hacc, heq⟩⟩⟩ :=
      insertRows_cons host tableId columns total rows inserted failed db row
    · simp [hlen]
    · rw [heq] at hdict
      simp [hfits, knows_of_length hdict]
    · -- The row is in its partition and stays there.
      rw [heq] at hrows
      obtain ⟨hcont, -, hne⟩ := hrow.accepted hacc
      have hgrows := (insertRows_grows host tableId columns total rows (inserted + 1) failed
        (afterRow host tableId columns row db)).1
          (rowMessage host tableId columns row db.symbolDict).key
      have hmore := hrows (rowMessage host tableId columns row db.symbolDict).key
      rw [hcont, pushMessage, if_pos rfl, rowCount_pushRow hne] at hgrows
      omega
    · rw [heq] at herror hrows hdict
      have hgrows := (insertRows_grows host tableId columns total rows inserted (failed + 1)
        (afterRow host tableId columns row db)).2
      have hknown : knows db.symbolDict (rowStrings (columns.zip row)) := by
        refine knows_of_length ?_
        rw [← hrow.symbolDict]
        exact le_trans hgrows hdict
      have hrest := ih inserted (failed + 1) (afterRow host tableId columns row db) herror
        (fun k => by rw [(hrow.refused hacc k).rowCount_eq]; exact hrows k)
        (by rw [hrow.symbolDict, internAll_of_knows hknown]; exact hdict)
      simpa [hlen, hfits, hacc, hknown] using hrest

end

end Zepto.Sql
