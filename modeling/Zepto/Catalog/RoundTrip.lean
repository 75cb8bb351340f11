import Zepto.Catalog.Texts

/-!
# The catalog survives a restart

What the writer writes the reader reads back. The reader asks more of a table than the calls that
change it do; a run whose calls keep to what it asks is restored.
-/

namespace Zepto.Catalog

open List Zepto.Lib

/-! ## Columns -/

section

variable {key : String} {columns : List ColumnDef} {s : TableSchema} {parsed : Parsed}
  {snap : List TableSchema} {name : List Char} {reg : Registry}

theorem simple_jsonStr (hkey : Raw key.toList) (s : List Char) :
    Simple (key, jsonStr s) := ⟨hkey, scalar_jsonStr s⟩

theorem simple_decimal (hkey : Raw key.toList) (n : Nat) :
    Simple (key, decimal n) := ⟨hkey, scalar_plain decimal_plain⟩

theorem nested_jsonStr (s : List Char) : Nested (jsonStr s) := nested_literal (raw_escape s)

theorem nested_decimal (n : Nat) : Nested (decimal n) := nested_plain decimal_plain

theorem raw_key (h : ∀ c ∈ key.toList, c ≠ '"' ∧ c ≠ '\\' := by decide) : Raw key.toList :=
  raw_of_plain h

theorem columnText_object (c : ColumnDef) : ∃ u, columnText c = '{' :: u ++ ['}'] ∧ Nested u := by
  refine ⟨_, rfl, nested_members ?_⟩
  simp only [forall_mem_cons]
  exact ⟨⟨raw_key, nested_jsonStr _⟩, ⟨raw_key, nested_decimal _⟩, nofun⟩

theorem columnTypeOf_typeNumber (type : Storage.ColumnType) :
    columnTypeOf (typeNumber type) = some type := by
  cases type <;> rfl

theorem guard_bind {p : Prop} [Decidable p] (h : p) {α : Type} (f : Unit → Option α) :
    (guard p : Option Unit).bind f = f () := by
  rw [guard, if_pos h]
  rfl

theorem readColumn_columnText {c : ColumnDef} (hname : Readable c.name)
    (hnew : c.name ∉ columns.map ColumnDef.name) :
    readColumn columns (columnText c) = some (columns ++ [c]) := by
  have hread : jsonExtractString "name" (columnText c) = some c.name :=
    jsonExtractString_object [] (by simp) (by simp) raw_key hname
  have htype : jsonFindInt "type" (columnText c) = some (typeNumber c.type) :=
    jsonFindInt_object [("name", jsonStr c.name)]
      (by simpa using simple_jsonStr raw_key _) (by simp) raw_key
      (by cases c.type <;> decide)
  unfold readColumn
  simp only [Option.bind_eq_bind, hread, htype, Option.bind_some,
    guard_bind (⟨hname.1, hnew⟩ : c.name ≠ [] ∧ c.name ∉ columns.map ColumnDef.name),
    columnTypeOf_typeNumber, Option.pure_def]

theorem readColumns : ∀ {before : List ColumnDef}, ColumnsValid (before ++ columns) →
      (columns.map columnText).foldlM readColumn before = some (before ++ columns) := by
  induction columns with
  | nil => intro before _; rw [append_nil]; rfl
  | cons c columns ih =>
    intro before h
    have hnew : c.name ∉ before.map ColumnDef.name := by
      have := h.2
      rw [map_append, nodup_append] at this
      exact fun hc => this.2.2 _ hc _ mem_cons_self rfl
    rw [map_cons, foldlM_cons,
      readColumn_columnText (h.1 c (mem_append_right _ mem_cons_self)) hnew]
    rw [append_cons before c columns] at h ⊢
    exact ih h

/-! ## Tables -/

theorem simple_flag (hkey : Raw key.toList) (b : Bool) : Simple (key, flag b) :=
  simple_decimal hkey _

def scalars (s : TableSchema) : List (String × List Char) :=
  [("name", jsonStr s.tableName), ("table_id", decimal s.tableId.toNat),
   ("ttl_ns", decimalInt s.ttlNs.toInt), ("has_data", flag s.hasData),
   ("placement_configured", flag s.placement.configured),
   ("placement_policy", decimal (modeNumber s.placement.mode)),
   ("placement_node_id", decimal s.placement.nodeId.toNat)]

section

variable (s : TableSchema)

theorem simple_scalars : ∀ m ∈ scalars s, Simple m := by
  simp only [scalars, forall_mem_cons]
  exact ⟨simple_jsonStr raw_key _, simple_decimal raw_key _,
    ⟨@raw_key "ttl_ns" (by decide), scalar_plain decimalInt_plain⟩, simple_flag raw_key _,
    simple_flag raw_key _, simple_decimal raw_key _,
    simple_decimal raw_key _, nofun⟩

theorem simple_take (n : Nat) : ∀ m ∈ (scalars s).take n, Simple m :=
  fun m hm => simple_scalars s m (mem_of_mem_take hm)

theorem columns_objects :
    ∀ o ∈ s.columns.map columnText, ∃ u, o = '{' :: u ++ ['}'] ∧ Nested u := by
  intro o ho
  obtain ⟨c, -, rfl⟩ := mem_map.mp ho
  exact columnText_object c

theorem tableText_object : ∃ u, tableText s = '{' :: u ++ ['}'] ∧ Nested u := by
  refine ⟨_, rfl, nested_members ?_⟩
  simp only [forall_mem_cons]
  exact ⟨⟨raw_key, nested_jsonStr _⟩, ⟨raw_key, nested_decimal _⟩,
    ⟨raw_key, nested_plain decimalInt_plain⟩, ⟨raw_key, nested_decimal _⟩,
    ⟨raw_key, nested_decimal _⟩, ⟨raw_key, nested_decimal _⟩,
    ⟨raw_key, nested_decimal _⟩,
    ⟨raw_key, nested_brackets (nested_objects (columns_objects s))⟩, nofun⟩

end

theorem modeOf_modeNumber (mode : TablePlacementMode) : modeOf (modeNumber mode) = some mode := by
  cases mode <;> rfl

theorem ofBool_lt (b : Bool) : (if b then 1 else 0) < 2 ^ 32 := by cases b <;> decide

theorem readPlacement_tableText (h : s.placement.Valid) :
    readPlacement (tableText s) = some s.placement := by
  have hconfigured : jsonFindInt "placement_configured" (tableText s) =
      some (if s.placement.configured then 1 else 0) :=
    jsonFindInt_object ((scalars s).take 4) (simple_take s 4) (by simp [scalars])
      raw_key (ofBool_lt _)
  have hmode : jsonFindInt "placement_policy" (tableText s) = some (modeNumber s.placement.mode) :=
    jsonFindInt_object ((scalars s).take 5) (simple_take s 5) (by simp [scalars])
      raw_key (by cases s.placement.mode <;> decide)
  have hnode : jsonFindInt "placement_node_id" (tableText s) = some s.placement.nodeId.toNat :=
    jsonFindInt_object ((scalars s).take 6) (simple_take s 6) (by simp [scalars])
      raw_key s.placement.nodeId.isLt
  have hflag : decide ((if s.placement.configured then 1 else 0) ≠ 0) = s.placement.configured := by
    cases s.placement.configured <;> rfl
  have hvalid : ¬((if s.placement.configured then 1 else 0) ≠ 0 ∧ s.placement.mode = .pinnedNode ∧
      s.placement.nodeId = 0) := by
    rintro ⟨hc, hm, hn⟩
    exact h ⟨by rw [← hflag]; exact decide_eq_true hc, hm, hn⟩
  have hle : (if s.placement.configured then 1 else 0) ≤ 1 := by split <;> omega
  unfold readPlacement
  simp only [hconfigured, hmode, hnode, Option.getD_some, Option.bind_eq_bind, modeOf_modeNumber,
    Option.bind_some, Option.pure_def, guard_bind hle, guard_bind hvalid, hflag,
    BitVec.ofNat_toNat, BitVec.setWidth_eq]

def Parsed.add (parsed : Parsed) (s : TableSchema) : Parsed where
  tables := parsed.tables.insert s.tableName s
  ids := s.tableId :: parsed.ids
  maxId := max parsed.maxId s.tableId.toNat

/-- A valid table with a new name and a new id is read back. -/
theorem readTable_tableText (h : s.Valid) (hid : s.tableId ≠ 0)
    (hname : parsed.tables.lookup s.tableName = none) (hnew : s.tableId ∉ parsed.ids) :
    readTable parsed (tableText s) = some (parsed.add s) := by
  have hcolumns : jsonFindMemberValue "columns" (tableText s) =
      some (array (s.columns.map columnText) ++ ['}']) :=
    jsonFindMemberValue_object (scalars s) (simple_scalars s) (by simp [scalars]) raw_key
      (starts_cons (by decide) _)
  have hbracket := jsonMatchBracket_array (columns_objects s) ['}']
  have hlast : skipWs ((array (s.columns.map columnText) ++ ['}']).drop
      ((commas (s.columns.map columnText)).length + 1 + 1)) = ['}'] := by
    rw [drop_left' (by simp [array])]
    decide
  have hread : jsonExtractString "name" (tableText s) = some s.tableName :=
    jsonExtractString_object [] (by simp) (by simp) raw_key h.name
  have htable : jsonFindInt "table_id" (tableText s) = some s.tableId.toNat :=
    jsonFindInt_object ((scalars s).take 1) (simple_take s 1) (by simp [scalars]) raw_key (by omega)
  have hne : s.tableId.toNat ≠ 0 := fun h0 => hid (BitVec.eq_of_toNat_eq h0)
  have httl : jsonFindInt64 "ttl_ns" (tableText s) = some s.ttlNs.toInt :=
    jsonFindInt64_object ((scalars s).take 2) (simple_take s 2) (by simp [scalars])
      raw_key h.ttl (BitVec.toInt_lt)
  have hdata : jsonFindInt "has_data" (tableText s) = some (if s.hasData then 1 else 0) :=
    jsonFindInt_object ((scalars s).take 3) (simple_take s 3) (by simp [scalars])
      raw_key (ofBool_lt _)
  have hle : (if s.hasData then 1 else 0) ≤ 1 := by split <;> omega
  have hflag : decide ((if s.hasData then 1 else 0) ≠ 0) = s.hasData := by
    cases s.hasData <;> rfl
  have harray : readArray readColumn (array (s.columns.map columnText) ++ ['}'])
      ((commas (s.columns.map columnText)).length + 1) [] = some s.columns := by
    rw [readArray_array readColumn (columns_objects s)]
    exact readColumns h.columns
  have hfresh : (parsed.tables.lookup s.tableName).isNone ∧ s.tableId ∉ parsed.ids :=
    ⟨by rw [hname]; rfl, hnew⟩
  unfold readTable
  simp only [Option.bind_eq_bind, hcolumns, hbracket, hread, htable, httl, hdata, harray,
    readPlacement_tableText h.placement, Option.bind_some, hflag,
    guard_bind hlast, guard_bind h.name.1, guard_bind h.ttl, guard_bind hle,
    guard_bind (⟨hne, by omega⟩ : s.tableId.toNat ≠ 0 ∧ s.tableId.toNat ≤ 65535),
    BitVec.ofNat_toNat, BitVec.setWidth_eq, BitVec.ofInt_toInt, guard_bind hfresh]
  rfl

/-! ## The catalog -/

/-- Tables the reader takes: valid, with ids other than 0, no two with one name or id. -/
structure Storable (snap : List TableSchema) : Prop where
  valid : ∀ s ∈ snap, s.Valid ∧ s.tableId ≠ 0
  names : (snap.map TableSchema.tableName).Nodup
  ids : (snap.map TableSchema.tableId).Nodup

theorem Storable.tail (h : Storable (s :: snap)) : Storable snap :=
  ⟨fun t ht => h.valid t (mem_cons_of_mem _ ht), (nodup_cons.mp h.names).2, (nodup_cons.mp h.ids).2⟩

/-- The tables of a file are read one after the other. -/
theorem readTables (h : Storable snap)
    (hnames : ∀ s ∈ snap, parsed.tables.lookup s.tableName = none)
    (hids : ∀ s ∈ snap, s.tableId ∉ parsed.ids) :
    (snap.map tableText).foldlM readTable parsed = some (snap.foldl .add parsed) := by
  induction snap generalizing parsed with
  | nil => rfl
  | cons s snap ih =>
    rw [forall_mem_cons] at hnames hids
    have hs := h.valid s mem_cons_self
    have hnotin := (nodup_cons.mp h.names).1
    have hnotid := (nodup_cons.mp h.ids).1
    rw [map_cons, foldlM_cons, readTable_tableText hs.1 hs.2 hnames.1 hids.1]
    refine ih h.tail (fun t ht => ?_) (fun t ht => ?_)
    · have hne : t.tableName ≠ s.tableName := fun heq => hnotin (heq ▸ mem_map_of_mem ht)
      rw [Parsed.add, AList.lookup_insert_ne hne]
      exact hnames.2 t ht
    · rw [Parsed.add, mem_cons, not_or]
      exact ⟨fun heq => hnotid (heq ▸ mem_map_of_mem ht), hids.2 t ht⟩

theorem tables_objects (snap : List TableSchema) :
    ∀ o ∈ snap.map tableText, ∃ u, o = '{' :: u ++ ['}'] ∧ Nested u := by
  intro o ho
  obtain ⟨s, -, rfl⟩ := mem_map.mp ho
  exact tableText_object s

def rootText (nextTableId : TableId) (snap : List TableSchema) : List Char :=
  commas ([("next_table_id", decimal nextTableId.toNat),
    ("tables", array (snap.map tableText))].map member)

theorem nested_rootText (nextTableId : TableId) (snap : List TableSchema) :
    Nested (rootText nextTableId snap) := by
  refine nested_members ?_
  simp only [forall_mem_cons]
  exact ⟨⟨raw_key, nested_decimal _⟩,
    ⟨raw_key, nested_brackets (nested_objects (tables_objects snap))⟩, nofun⟩

theorem length_rootText (nextTableId : TableId) (snap : List TableSchema) :
    (saveTo nextTableId snap).length - (array (snap.map tableText) ++ ['}']).length +
      ((commas (snap.map tableText)).length + 1) = (rootText nextTableId snap).length := by
  simp only [saveTo, object, rootText, array, commas, member, map_cons, map_nil,
    length_cons, length_append, length_nil]
  omega

/-- A catalog with a counter other than 0 and storable tables is read back. -/
theorem readCatalog_saveTo {nextTableId : TableId} (hnext : nextTableId ≠ 0) (h : Storable snap) :
    readCatalog (saveTo nextTableId snap) =
      some
        { tables := (snap.foldl Parsed.add {}).tables
          nextTableId := .ofNat 16
            (min (max nextTableId.toNat ((snap.foldl Parsed.add {}).maxId + 1)) 65535) } := by
  have hroot : skipWs (saveTo nextTableId snap) = saveTo nextTableId snap := by
    rw [saveTo, object, cons_append, skipWs, dropWhile_cons_of_neg (by decide)]
  have hbrace : jsonMatchBrace (saveTo nextTableId snap) =
      some ((rootText nextTableId snap).length + 1) := by
    have := matchDelimiter_enclose (by decide) (by decide) (nested_rootText nextTableId snap).braces
      []
    rwa [append_nil] at this
  have hfind : jsonFindInt "next_table_id" (saveTo nextTableId snap) = some nextTableId.toNat :=
    jsonFindInt_object [] (by simp) (by simp) raw_key (by omega)
  have hid : nextTableId.toNat ≠ 0 ∧ nextTableId.toNat ≤ 65535 :=
    ⟨fun h0 => hnext (BitVec.eq_of_toNat_eq h0), by omega⟩
  have htables : jsonFindMemberValue "tables" (saveTo nextTableId snap) =
      some (array (snap.map tableText) ++ ['}']) :=
    jsonFindMemberValue_object [("next_table_id", decimal nextTableId.toNat)]
      (by simpa using simple_decimal raw_key _) (by simp) raw_key
      (starts_cons (by decide) _)
  have hbracket := jsonMatchBracket_array (tables_objects snap) ['}']
  have harray : readArray readTable (array (snap.map tableText) ++ ['}'])
      ((commas (snap.map tableText)).length + 1) {} = some (snap.foldl .add {}) := by
    rw [readArray_array readTable (tables_objects snap)]
    exact readTables h (fun _ _ => rfl) (fun _ _ => not_mem_nil)
  have hdrop : skipWs ((saveTo nextTableId snap).drop
      ((rootText nextTableId snap).length + 1 + 1)) = [] := by
    rw [drop_eq_nil_of_le (by simp [saveTo, object, rootText])]
    rfl
  have hpos := length_rootText nextTableId snap
  unfold readCatalog
  simp only [Option.bind_eq_bind, hroot, hbrace, Option.bind_some, guard_bind hdrop, hfind,
    guard_bind hid, htables, hbracket, hpos]
  have hlast : (skipWsTo ((rootText nextTableId snap).length + 1 -
      ((rootText nextTableId snap).length + 1))
      ((array (snap.map tableText) ++ ['}']).drop
        ((commas (snap.map tableText)).length + 1 + 1))).1 = 0 := by
    rw [Nat.sub_self]
    exact Nat.le_zero.mp (skipWsTo_le 0 _)
  rw [guard_bind (by omega), guard_bind (by omega), guard_bind ⟨by omega, hlast⟩, harray]
  rfl

/-! ## Runs -/

/-- What a call that changes anything must keep to for the catalog to stay readable. -/
def Keeps (reg : Registry) : RegistryEvent → Prop
  | .create name cols placement =>
    reg.create name cols placement = none ∨ Readable name ∧ ColumnsValid cols ∧ placement.Valid
  | .restore schema => reg.restoreTableSchema schema = none ∨ schema.Valid
  | .addColumn name col =>
    ∀ s, reg.tables.lookup name = some s →
      Readable col.name ∧ col.name ∉ s.columns.map ColumnDef.name
  | .setTtl name ttlNs => reg.tables.lookup name = none ∨ 0 ≤ ttlNs.toInt
  | .setPlacement name placement => reg.tables.lookup name = none ∨ placement.Valid
  | .drop _ | .dropColumn _ _ | .markHasData _ | .load _ => True

structure Registry.Good (reg : Registry) : Prop where
  tables : reg.tables.Distinct
  valid : ∀ {name s}, reg.tables.lookup name = some s → s.Valid
  next : reg.nextTableId ≠ 0

theorem good_empty : Registry.Good {} where
  tables := distinct_empty
  valid h := nomatch h
  next := by decide

theorem counterAfter_ne_zero (h : reg.nextTableId ≠ 0) (tableId : TableId) :
    reg.counterAfter tableId ≠ 0 := by
  unfold Registry.counterAfter
  split
  next hlt =>
    intro h0
    have := congrArg BitVec.toNat h0
    have hlt : tableId.toNat < 65535 := hlt.2
    rw [BitVec.toNat_add, Nat.mod_eq_of_lt (by simp; omega)] at this
    simp at this
  · exact h

theorem valid_insert {tables : Tables} (h : ∀ {name s}, tables.lookup name = some s → s.Valid)
    (hs : s.Valid) : ∀ {name' s'}, (tables.insert name s).lookup name' = some s' → s'.Valid := by
  intro name' s' hl
  rcases lookup_insert_cases hl with ⟨-, rfl⟩ | ⟨-, hl⟩
  · exact hs
  · exact h hl

/-- A change that keeps a schema valid keeps the registry readable. -/
theorem good_change {reg reg' : Registry} {name : List Char} {f : TableSchema → Option TableSchema}
    (hf : ∀ s s', reg.tables.lookup name = some s → s.Valid → f s = some s' →
      s'.tableName = s.tableName ∧ s'.tableId = s.tableId ∧ s'.Valid)
    (h : reg.Good) (hr : reg.change name f = some reg') : reg'.Good := by
  obtain ⟨s, s', hl, hs, rfl⟩ := change_eq_some hr
  obtain ⟨hname, hid, hvalid⟩ := hf s s' hl (h.valid hl) hs
  exact ⟨h.tables.replace hl hname hid, valid_insert h.valid hvalid, h.next⟩

theorem good_step (reg : Registry) (e : RegistryEvent) (h : reg.Good) (hk : Keeps reg e) :
    (registryMachine.step reg e).2.Good := by
  cases e with
  | create name cols placement =>
    refine answer_keeps h fun reg' hr => ?_
    obtain ⟨hname, hcols, hplacement⟩ := hk.resolve_left (by rw [hr]; exact nofun)
    obtain ⟨tableId, hid, hfree, rfl⟩ := create_eq_some hr
    refine ⟨h.tables.insert rfl hid fun hl _ => not_uses hfree hl, valid_insert h.valid ?_,
      counterAfter_ne_zero h.next tableId⟩
    exact ⟨hname, hcols, (by decide : 0 ≤ (0 : BitVec 64).toInt), hplacement⟩
  | drop name =>
    refine answer_keeps h fun reg' hr => ?_
    obtain rfl := drop_eq_some hr
    exact ⟨h.tables.erase name, fun hl => h.valid (lookup_of_lookup_erase hl), h.next⟩
  | restore schema =>
    refine answer_keeps h fun reg' hr => ?_
    have hvalid := hk.resolve_left (by rw [hr]; exact nofun)
    obtain ⟨hid, hfree, rfl⟩ := restore_eq_some hr
    exact ⟨h.tables.insert rfl hid hfree, valid_insert h.valid hvalid,
      counterAfter_ne_zero h.next schema.tableId⟩
  | addColumn name col =>
    refine answer_keeps h fun reg' hr => good_change ?_ h hr
    rintro s s' hl hs ⟨⟩
    exact ⟨rfl, rfl, hs.name, columnsValid_append hs.columns (hk s hl).1 (hk s hl).2, hs.ttl,
      hs.placement⟩
  | dropColumn name colName =>
    refine answer_keeps h fun reg' hr => good_change ?_ h hr
    intro s s' _ hs hs'
    obtain rfl := dropColumn_keeps hs'
    exact ⟨rfl, rfl, hs.name, ⟨fun c hc => hs.columns.1 c (mem_of_mem_eraseP hc),
      (eraseP_sublist.map _).nodup hs.columns.2⟩, hs.ttl, hs.placement⟩
  | setTtl name ttlNs =>
    refine answer_keeps h fun reg' hr => good_change ?_ h hr
    rintro s s' hl hs ⟨⟩
    have httl := hk.resolve_left (by rw [hl]; exact nofun)
    exact ⟨rfl, rfl, hs.name, hs.columns, httl, hs.placement⟩
  | setPlacement name placement =>
    refine answer_keeps h fun reg' hr => good_change ?_ h hr
    rintro s s' hl hs ⟨⟩
    have hplacement := hk.resolve_left (by rw [hl]; exact nofun)
    exact ⟨rfl, rfl, hs.name, hs.columns, hs.ttl, hplacement⟩
  | markHasData name =>
    refine answer_keeps h fun reg' hr => good_change ?_ h hr
    rintro s s' _ hs ⟨⟩
    exact ⟨rfl, rfl, hs.name, hs.columns, hs.ttl, hs.placement⟩
  | load file =>
    rcases loadFromChecked_cases reg file with ⟨-, hload⟩ | ⟨-, hload⟩
    · exact ⟨hload.tables, hload.valid, hload.counted.1⟩
    · exact hload.symm ▸ h

/-! ## Saving and loading -/

/-- The tables of a registry in some order. -/
def Snapshot (reg : Registry) (snap : List TableSchema) : Prop :=
  snap.Perm (reg.tables.entries.map Sigma.snd)

theorem mem_snapshot (hd : reg.tables.Distinct) (h : Snapshot reg snap) :
    s ∈ snap ↔ reg.tables.lookup s.tableName = some s := by
  rw [h.mem_iff, mem_map]
  constructor
  · rintro ⟨⟨name, s⟩, he, rfl⟩
    have hl := AList.mem_lookup_iff.mpr he
    rw [hd.named hl]
    exact hl
  · intro hl
    exact ⟨⟨s.tableName, s⟩, AList.mem_lookup_iff.mp hl, rfl⟩

theorem storable_snapshot (hg : reg.Good) (h : Snapshot reg snap) : Storable snap := by
  have hlookup {s : TableSchema} (hs : s ∈ snap) := (mem_snapshot hg.tables h).mp hs
  have hkeys : (reg.tables.entries.map Sigma.snd).map TableSchema.tableName =
      reg.tables.entries.keys := by
    rw [map_map]
    exact map_congr_left fun e he => hg.tables.named (AList.mem_lookup_iff.mpr he)
  have hnames : (snap.map TableSchema.tableName).Nodup := by
    rw [(h.map TableSchema.tableName).nodup_iff, hkeys]
    exact reg.tables.nodupKeys
  refine ⟨fun s hs => ⟨hg.valid (hlookup hs), hg.tables.nonzero (hlookup hs)⟩, hnames, ?_⟩
  refine .map_on (fun s hs s' hs' heq => ?_) (.of_map _ hnames)
  have hname := hg.tables.distinct (hlookup hs) (hlookup hs') heq
  have := hlookup hs
  rw [hname, hlookup hs'] at this
  exact (Option.some.inj this).symm

/-- After every run whose calls keep to what the reader asks, the saved file loads with the tables
of the registry. -/
theorem catalog_survives_restart {events : List RegistryEvent}
    (h : registryMachine.Admits Keeps {} events) {snap : List TableSchema}
    (hsnap : Snapshot (registryMachine.run {} events) snap) (reg : Registry) :
    let saved := registryMachine.run {} events
    let load := loadFromChecked reg (.bytes (saveTo saved.nextTableId snap))
    load.1 = .loaded ∧ ∀ name, load.2.tables.lookup name = saved.tables.lookup name := by
  intro saved load
  have hg : saved.Good := registryMachine.invariant_admits good_step good_empty h
  have hstorable := storable_snapshot hg hsnap
  rw [show load = loadFromChecked reg _ from rfl, loadFromChecked,
    readCatalog_saveTo hg.next hstorable]
  refine ⟨rfl, fun name => Option.ext fun s => ?_⟩
  rw [lookup_foldl_insert hstorable.names Parsed.tables fun _ _ => rfl]
  constructor
  · rintro (⟨s, hs, rfl, rfl⟩ | ⟨-, hl⟩)
    · exact (mem_snapshot hg.tables hsnap).mp hs
    · cases hl
  · intro hl
    obtain rfl := hg.tables.named hl
    exact .inl ⟨s, (mem_snapshot hg.tables hsnap).mpr hl, rfl, rfl⟩

/-- `ALTER TABLE ... ADD COLUMN` takes a name the table has; the catalog is invalid, and no table is
loaded. -/
theorem repeated_column_is_invalid :
    let saved := registryMachine.run {}
      [.create "t".toList [⟨"a".toList, .int64⟩] {}, .addColumn "t".toList ⟨"a".toList, .int64⟩]
    let snap := saved.tables.entries.map Sigma.snd
    Snapshot saved snap ∧
      (loadFromChecked {} (.bytes (saveTo saved.nextTableId snap))).1 = .invalid :=
  ⟨List.Perm.refl _, by decide +kernel⟩

/-- A table with a quote and a line break in its name, changed twice. -/
theorem quoted_table_survives : let events : List RegistryEvent :=
      [.create "a\"\nb".toList [⟨"price".toList, .float64⟩] {},
       .addColumn "a\"\nb".toList ⟨"volume".toList, .int64⟩, .setTtl "a\"\nb".toList 3600]
    let saved := registryMachine.run {} events
    let snap := saved.tables.entries.map Sigma.snd
    registryMachine.Admits Keeps {} events ∧
      (loadFromChecked {} (.bytes (saveTo saved.nextTableId snap))).1 = .loaded := by
  intro events saved snap
  have h : registryMachine.Admits Keeps {} events := by
    refine ⟨.inr (by decide +kernel), ?_, .inr (by decide +kernel), trivial⟩
    intro s hs
    obtain rfl := Option.some.inj (hs.symm.trans (by rfl : _ = some _))
    decide +kernel
  exact ⟨h, (catalog_survives_restart h (List.Perm.refl _) {}).1⟩

end

end Zepto.Catalog
