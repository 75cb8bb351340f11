import Zepto.Catalog.Json
import Zepto.Lib.Grouping
import Zepto.Lib.Machine
import Mathlib.Tactic.Common

/-!
# What a catalog file can load

The registry as a machine. Whatever bytes the catalog file has, a load either replaces the registry
by a well-formed one or leaves it alone, and no run of calls gives two tables one id.
-/

namespace Zepto.Catalog

open List Zepto.Lib

/-! ## The machine -/

section

variable {reg : Registry} {tables : Tables} {name name' : List Char} {s s' : TableSchema}
  {reg' : Registry} {f : TableSchema → Option TableSchema} {σ : Type} {t : List Char} {c : Char}
  {key : String} {obj : List Char} {columns : List ColumnDef} {parsed parsed' : Parsed}

inductive RegistryEvent where
  | create (name : List Char) (cols : List ColumnDef) (placement : TablePlacementOptions)
  | drop (name : List Char)
  | restore (schema : TableSchema)
  | addColumn (name : List Char) (col : ColumnDef)
  | dropColumn (name colName : List Char)
  | setTtl (name : List Char) (ttlNs : BitVec 64)
  | setPlacement (name : List Char) (placement : TablePlacementOptions)
  | markHasData (name : List Char)
  | load (file : CatalogFile)

def answer (reg : Registry) (r : Option Registry) : Bool × Registry := (r.isSome, r.getD reg)

def registryMachine : Machine Registry RegistryEvent Bool where
  step reg
    | .create name cols placement => answer reg (reg.create name cols placement)
    | .drop name => answer reg (reg.drop name)
    | .restore schema => answer reg (reg.restoreTableSchema schema)
    | .addColumn name col => answer reg (reg.addColumn name col)
    | .dropColumn name colName => answer reg (reg.dropColumn name colName)
    | .setTtl name ttlNs => answer reg (reg.setTtl name ttlNs)
    | .setPlacement name placement => answer reg (reg.setPlacement name placement)
    | .markHasData name => answer reg (reg.markHasData name)
    | .load file => ((loadFromChecked reg file).1 = .loaded, (loadFromChecked reg file).2)

/-- What every success of a call leaves, the call leaves. -/
theorem answer_keeps {P : Registry → Prop} {r : Option Registry} (h0 : P reg)
    (h : ∀ reg', r = some reg' → P reg') : P (answer reg r).2 := by
  cases r with
  | none => exact h0
  | some reg' => exact h reg' rfl

/-! ## Well-formed registries -/

/-- A name the reader takes: not empty, its control bytes those the writer escapes. -/
def Readable (name : List Char) : Prop :=
  name ≠ [] ∧ ∀ c ∈ name, c.toNat < 0x20 → c ∈ ['\n', '\r', '\t']

instance (name : List Char) : Decidable (Readable name) := inferInstanceAs (Decidable (_ ∧ _))

def TablePlacementOptions.Valid (p : TablePlacementOptions) : Prop :=
  ¬(p.configured = true ∧ p.mode = .pinnedNode ∧ p.nodeId = 0)

instance (p : TablePlacementOptions) : Decidable p.Valid := inferInstanceAs (Decidable ¬_)

def ColumnsValid (columns : List ColumnDef) : Prop :=
  (∀ c ∈ columns, Readable c.name) ∧ (columns.map ColumnDef.name).Nodup

instance (columns : List ColumnDef) : Decidable (ColumnsValid columns) :=
  inferInstanceAs (Decidable (_ ∧ _))

structure TableSchema.Valid (s : TableSchema) : Prop where
  name : Readable s.tableName
  columns : ColumnsValid s.columns
  ttl : 0 ≤ s.ttlNs.toInt
  placement : s.placement.Valid

/-- Every table is under its name and has its own id other than 0. -/
structure Tables.Distinct (tables : Tables) : Prop where
  named : ∀ {name s}, tables.lookup name = some s → s.tableName = name
  nonzero : ∀ {name s}, tables.lookup name = some s → s.tableId ≠ 0
  distinct : ∀ {name name' s s'}, tables.lookup name = some s → tables.lookup name' = some s' →
    s.tableId = s'.tableId → name = name'

/-- The counter is an id, and past every id in use unless it is the last. -/
def Registry.Counted (reg : Registry) : Prop :=
  reg.nextTableId ≠ 0 ∧ ∀ {name s}, reg.tables.lookup name = some s →
    s.tableId < reg.nextTableId ∨ reg.nextTableId = 65535

structure Registry.WellFormed (reg : Registry) : Prop where
  tables : reg.tables.Distinct
  valid : ∀ {name s}, reg.tables.lookup name = some s → s.Valid
  counted : reg.Counted

theorem distinct_empty : Tables.Distinct ∅ where
  named h := nomatch h
  nonzero h := nomatch h
  distinct h := nomatch h

/-- A table put under its name, with an id no other table has. -/
theorem Tables.Distinct.insert (h : tables.Distinct) (hname : s.tableName = name)
    (h0 : s.tableId ≠ 0)
    (hfree : ∀ {name' s'}, tables.lookup name' = some s' → name' ≠ name → s'.tableId ≠ s.tableId) :
    Distinct (.insert name s tables) where
  named hl := by
    rcases lookup_insert_cases hl with ⟨rfl, rfl⟩ | ⟨-, hl⟩
    · exact hname
    · exact h.named hl
  nonzero hl := by
    rcases lookup_insert_cases hl with ⟨rfl, rfl⟩ | ⟨-, hl⟩
    · exact h0
    · exact h.nonzero hl
  distinct ha hb heq := by
    rcases lookup_insert_cases ha with ⟨rfl, rfl⟩ | ⟨hna, hla⟩ <;>
      rcases lookup_insert_cases hb with ⟨rfl, rfl⟩ | ⟨hnb, hlb⟩
    · rfl
    · exact absurd heq.symm (hfree hlb hnb)
    · exact absurd heq (hfree hla hna)
    · exact h.distinct hla hlb heq

theorem Tables.Distinct.erase (h : tables.Distinct) (name : List Char) :
    Distinct (.erase name tables) where
  named hl := h.named (lookup_of_lookup_erase hl)
  nonzero hl := h.nonzero (lookup_of_lookup_erase hl)
  distinct hl hl' := h.distinct (lookup_of_lookup_erase hl) (lookup_of_lookup_erase hl')

/-! ## The calls -/

theorem not_uses {tableId : TableId} (h : tables.uses tableId = false)
    (hl : tables.lookup name = some s) : s.tableId ≠ tableId := by
  intro heq
  refine absurd h (Bool.not_eq_false _ ▸ ?_)
  rw [Tables.uses, any_eq_true]
  exact ⟨⟨name, s⟩, AList.mem_lookup_iff.mp hl, by simpa using heq⟩

/-- An id the probes end with is not in use. -/
theorem probe_free (used : TableId → Bool) (rounds : Nat) (candidate : TableId)
    (h : probe used rounds candidate ≠ 0) : used (probe used rounds candidate) = false := by
  induction rounds generalizing candidate with
  | zero => exact absurd rfl h
  | succ rounds ih =>
    rw [probe] at h ⊢
    by_cases hu : used candidate
    · rw [if_pos hu] at h ⊢
      exact ih _ h
    · rw [if_neg hu]
      exact Bool.not_eq_true _ ▸ hu

theorem create_eq_some {cols : List ColumnDef} {placement : TablePlacementOptions}
    (h : reg.create name cols placement = some reg') :
    ∃ tableId, tableId ≠ 0 ∧ reg.tables.uses tableId = false ∧ reg' =
        { tables := reg.tables.insert name
            { tableName := name, columns := cols, tableId, placement }
          nextTableId := reg.counterAfter tableId } := by
  unfold Registry.create at h
  split at h
  · exact nomatch h
  extract_lets tableId at h
  split at h
  · exact nomatch h
  next hid =>
    exact ⟨tableId, hid, probe_free _ _ _ hid, (Option.some.inj h).symm⟩

theorem restore_eq_some {schema : TableSchema} (h : reg.restoreTableSchema schema = some reg') :
    schema.tableId ≠ 0 ∧ (∀ {name s}, reg.tables.lookup name = some s → name ≠ schema.tableName →
        s.tableId ≠ schema.tableId) ∧
      reg' =
        { tables := reg.tables.insert schema.tableName schema
          nextTableId := reg.counterAfter schema.tableId } := by
  unfold Registry.restoreTableSchema at h
  split at h
  · exact nomatch h
  rename_i hne
  split at h
  · exact nomatch h
  rename_i hany
  refine ⟨fun h0 => hne (.inr h0), ?_, (Option.some.inj h).symm⟩
  intro name s hl hname heq
  refine hany (any_eq_true.mpr ⟨⟨name, s⟩, AList.mem_lookup_iff.mp hl, ?_⟩)
  simp only [decide_eq_true_eq]
  exact ⟨hname, heq⟩

theorem change_eq_some (h : reg.change name f = some reg') :
    ∃ s s', reg.tables.lookup name = some s ∧ f s = some s' ∧
      reg' = { reg with tables := reg.tables.insert name s' } := by
  unfold Registry.change at h
  split at h
  · exact nomatch h
  rename_i s hl
  split at h
  · exact nomatch h
  next s' hf =>
    exact ⟨s, s', hl, hf, (Option.some.inj h).symm⟩

theorem drop_eq_some (h : reg.drop name = some reg') :
    reg' = { reg with tables := reg.tables.erase name } := by
  unfold Registry.drop at h
  split at h
  · exact (Option.some.inj h).symm
  · exact nomatch h

/-- A schema in the place of one with its name and id. -/
theorem Tables.Distinct.replace (h : tables.Distinct) (hl : tables.lookup name = some s)
    (hname : s'.tableName = s.tableName) (hid : s'.tableId = s.tableId) :
    Distinct (.insert name s' tables) := by
  refine h.insert (hname.trans (h.named hl)) (hid ▸ h.nonzero hl) ?_
  intro name' t hl' hne heq
  exact hne (h.distinct hl' hl (heq.trans hid))

theorem distinct_change
    (hf : ∀ s s', f s = some s' → s'.tableName = s.tableName ∧ s'.tableId = s.tableId)
    (h : reg.tables.Distinct) : (answer reg (reg.change name f)).2.tables.Distinct := by
  refine answer_keeps (P := fun reg => reg.tables.Distinct) h fun reg' hr => ?_
  obtain ⟨s, s', hl, hs, rfl⟩ := change_eq_some hr
  exact h.replace hl (hf s s' hs).1 (hf s s' hs).2

theorem dropColumn_keeps {s s' : TableSchema} {colName : List Char}
    (h : (if s.columns.any fun c => c.name = colName then
      some { s with columns := s.columns.eraseP fun c => c.name = colName } else none) = some s') :
    s' = { s with columns := s.columns.eraseP fun c => c.name = colName } := by
  split at h
  · exact (Option.some.inj h).symm
  · exact nomatch h

/-! ## The reader -/

theorem readObjects_keeps {item : σ → List Char → Option σ} {P : σ → Prop}
    (hitem : ∀ {acc obj acc'}, P acc → item acc obj = some acc' → P acc') {rounds n : Nat}
    {acc acc' : σ} (h0 : P acc) (h : readObjects item rounds n t acc = some acc') : P acc' := by
  induction rounds generalizing n t acc with
  | zero =>
    rw [readObjects] at h
    split at h
    · exact Option.some.inj h ▸ h0
    · exact nomatch h
  | succ rounds ih =>
    rw [readObjects] at h
    dsimp only at h
    split at h
    · exact Option.some.inj h ▸ h0
    split at h
    · exact nomatch h
    split at h
    · exact nomatch h
    · split at h
      · exact nomatch h
      next hnext =>
        have h1 := hitem h0 hnext
        split at h
        · exact Option.some.inj h ▸ h1
        split at h
        · exact nomatch h
        · split at h
          · exact nomatch h
          · exact ih h1 h

theorem skipWsTo_le (n : Nat) (t : List Char) : (skipWsTo n t).1 ≤ n := by
  induction n, t using skipWsTo.induct with
  | case1 n c t hc ih => rw [skipWsTo, if_pos hc]; omega
  | case2 n c t hc => rw [skipWsTo, if_neg hc]
  | case3 n t _ => rw [skipWsTo]; assumption

theorem readObjects_end (item : σ → List Char → Option σ) (rounds : Nat) (t : List Char) (acc : σ) :
    readObjects item rounds 0 t acc = some acc := by
  cases rounds with
  | zero => rfl
  | succ rounds =>
    rw [readObjects]
    dsimp only
    rw [if_pos (Nat.le_zero.mp (skipWsTo_le 0 t))]

theorem escaped_readable {d : Char} (h : escaped c = some d) (hd : d.toNat < 0x20) :
    d ∈ ['\n', '\r', '\t'] := by
  unfold escaped at h
  split at h
  · obtain rfl := Option.some.inj h
    decide
  split at h
  · obtain rfl := Option.some.inj h
    decide
  split at h
  · obtain rfl := Option.some.inj h
    decide
  · split at h
    · obtain rfl := Option.some.inj h
      exact absurd hd (by decide)
    · split at h
      · obtain rfl := Option.some.inj h
        exact absurd hd (by decide)
      · exact nomatch h

/-- The bytes a string literal can stand for. -/
theorem readString_readable {afterBackslash : Bool} {r : List Char × List Char}
    (h : readString afterBackslash t = some r) :
    ∀ c ∈ r.1, c.toNat < 0x20 → c ∈ ['\n', '\r', '\t'] := by
  induction t generalizing afterBackslash r with
  | nil => cases afterBackslash <;> exact nomatch h
  | cons a t ih =>
    cases afterBackslash with
    | true =>
      rw [readString] at h
      split at h
      · exact nomatch h
      rename_i d hd
      obtain ⟨r', hr', rfl⟩ := Option.map_eq_some_iff.mp h
      intro c hc hlt
      rcases mem_cons.mp hc with rfl | hc
      · exact escaped_readable hd hlt
      · exact ih hr' c hc hlt
    | false =>
      rw [readString] at h
      split at h
      · obtain rfl := Option.some.inj h
        exact nofun
      split at h
      · exact ih h
      split at h
      · exact nomatch h
      · obtain ⟨r', hr', rfl⟩ := Option.map_eq_some_iff.mp h
        intro c hc hlt
        rcases mem_cons.mp hc with rfl | hc
        · omega
        · exact ih hr' c hc hlt

theorem jsonExtractString_readable {s : List Char} (h : jsonExtractString key obj = some s)
    (hne : s ≠ []) : Readable s := by
  unfold jsonExtractString at h
  split at h
  · split at h
    next hr =>
      split at h
      · obtain rfl := Option.some.inj h
        exact ⟨hne, readString_readable hr⟩
      · exact nomatch h
    · exact nomatch h
  · exact nomatch h

theorem columnsValid_nil : ColumnsValid [] := ⟨nofun, nodup_nil⟩

theorem columnsValid_append {c : ColumnDef} (h : ColumnsValid columns) (hname : Readable c.name)
    (hnew : c.name ∉ columns.map ColumnDef.name) : ColumnsValid (columns ++ [c]) := by
  refine ⟨?_, ?_⟩
  · intro c' hc
    rcases mem_append.mp hc with hc | hc
    · exact h.1 c' hc
    · obtain rfl := mem_singleton.mp hc
      exact hname
  · rw [map_append, nodup_append]
    refine ⟨h.2, nodup_singleton _, ?_⟩
    intro a ha b hb heq
    obtain rfl := mem_singleton.mp hb
    exact hnew (heq ▸ ha)

theorem readColumn_valid {columns' : List ColumnDef} (h0 : ColumnsValid columns)
    (h : readColumn columns obj = some columns') : ColumnsValid columns' := by
  unfold readColumn at h
  simp only [Option.bind_eq_bind, Option.bind_eq_some_iff, Option.guard_eq_some',
    Option.pure_def, Option.some.injEq] at h
  obtain ⟨name, hname, -, ⟨hne, hnew⟩, n, -, type, -, rfl⟩ := h
  exact columnsValid_append h0 (jsonExtractString_readable hname hne) hnew

theorem readPlacement_valid {p : TablePlacementOptions} (h : readPlacement obj = some p) :
    p.Valid := by
  unfold readPlacement at h
  simp only [Option.bind_eq_bind, Option.bind_eq_some_iff, Option.guard_eq_some',
    Option.pure_def, Option.some.injEq] at h
  obtain ⟨-, -, mode, -, -, hpinned, rfl⟩ := h
  rintro ⟨hc, hm, hn⟩
  exact hpinned ⟨of_decide_eq_true hc, hm, hn⟩

theorem isDigit_le (h : c.isDigit) : c.toNat - 48 ≤ 9 := by
  simp only [Char.isDigit, Bool.and_eq_true, decide_eq_true_eq] at h
  have : c.toNat ≤ 57 := h.2
  omega

theorem readDigits_le {limit v : Nat} {r : Nat × List Char} (h9 : 9 ≤ limit) (hv : v ≤ limit)
    (h : readDigits limit v t = some r) : r.1 ≤ limit := by
  induction t generalizing v with
  | nil =>
    obtain rfl := Option.some.inj h
    exact hv
  | cons c t ih =>
    rw [readDigits] at h
    split at h
    next hc =>
      split at h
      · exact nomatch h
      next hlimit =>
        have := isDigit_le hc
        exact ih (by omega) h
    · obtain rfl := Option.some.inj h
      exact hv

theorem jsonFindInt64_lt {z : Int} (h : jsonFindInt64 key t = some z) : z < 2 ^ 63 := by
  unfold jsonFindInt64 jsonFindIntGen at h
  split at h
  · exact nomatch h
  dsimp only at h
  split at h
  · exact nomatch h
  split at h
  · exact nomatch h
  split at h
  · exact nomatch h
  next hdigits =>
    have hle := readDigits_le (by split <;> omega) (Nat.zero_le _) hdigits
    split at h
    · obtain rfl := Option.some.inj h
      split at hle
      next hneg =>
        rw [if_pos hneg]
        omega
      next hneg =>
        omega
    · exact nomatch h

theorem readTable_eq_some (h : readTable parsed obj = some parsed') :
    ∃ s : TableSchema, s.Valid ∧ s.tableId ≠ 0 ∧ s.tableId ∉ parsed.ids ∧
      parsed' =
        { tables := parsed.tables.insert s.tableName s
          ids := s.tableId :: parsed.ids
          maxId := max parsed.maxId s.tableId.toNat } := by
  unfold readTable at h
  simp only [Option.bind_eq_bind, Option.bind_eq_some_iff, Option.guard_eq_some',
    Option.pure_def, Option.some.injEq] at h
  obtain ⟨columnsLeft, -, columnsRight, -, -, -, name, hname, -, hne, tableId, -, -, ⟨hid, hid'⟩,
    ttlNs, hread, -, httl, hasData, -, -, -, -, ⟨-, hnew⟩, placement, hplacement, columns, hcolumns,
    rfl⟩ := h
  have hnat : (BitVec.ofNat 16 tableId).toNat = tableId := by
    rw [BitVec.toNat_ofNat]
    omega
  have hint : (BitVec.ofInt 64 ttlNs).toInt = ttlNs := by
    have := jsonFindInt64_lt hread
    rw [BitVec.toInt_ofInt]
    exact Int.bmod_eq_of_le (by omega) (by omega)
  let s : TableSchema :=
    { tableName := name, columns, ttlNs := .ofInt 64 ttlNs, hasData := hasData ≠ 0,
      tableId := .ofNat 16 tableId, placement }
  refine ⟨s, ?_, ?_, hnew, ?_⟩
  · exact
      { name := jsonExtractString_readable hname hne
        columns := readObjects_keeps (P := ColumnsValid) readColumn_valid columnsValid_nil hcolumns
        ttl := hint ▸ httl
        placement := readPlacement_valid hplacement }
  · intro h0
    exact hid (hnat ▸ congrArg BitVec.toNat h0)
  · simp [s, hnat]

/-- The tables so far are well formed; `parsed_ids` and `max_id` know their ids. -/
structure Parsed.Ok (parsed : Parsed) : Prop where
  tables : parsed.tables.Distinct
  valid : ∀ {name s}, parsed.tables.lookup name = some s → s.Valid
  ids : ∀ {name s}, parsed.tables.lookup name = some s → s.tableId ∈ parsed.ids
  maxId : ∀ {name s}, parsed.tables.lookup name = some s → s.tableId.toNat ≤ parsed.maxId

theorem readTable_ok (h0 : parsed.Ok) (h : readTable parsed obj = some parsed') : parsed'.Ok := by
  obtain ⟨s, hvalid, hid, hnew, rfl⟩ := readTable_eq_some h
  constructor
  · refine h0.tables.insert rfl hid ?_
    intro name t hl _ heq
    exact hnew (heq ▸ h0.ids hl)
  · intro name t hl
    rcases lookup_insert_cases hl with ⟨-, rfl⟩ | ⟨-, hl⟩
    · exact hvalid
    · exact h0.valid hl
  · intro name t hl
    rcases lookup_insert_cases hl with ⟨-, rfl⟩ | ⟨-, hl⟩
    · exact mem_cons_self
    · exact mem_cons_of_mem _ (h0.ids hl)
  intro name t hl
  rcases lookup_insert_cases hl with ⟨-, rfl⟩ | ⟨-, hl⟩
  · exact le_max_right _ _
  · exact (h0.maxId hl).trans (le_max_left _ _)

theorem ok_empty : Parsed.Ok {} where
  tables := distinct_empty
  valid h := nomatch h
  ids h := nomatch h
  maxId h := nomatch h

/-- A file that is read describes a well-formed registry. -/
theorem readCatalog_wellFormed {s : List Char} (h : readCatalog s = some reg) : reg.WellFormed := by
  unfold readCatalog at h
  simp only [Option.bind_eq_bind, Option.bind_eq_some_iff, Option.pure_def, Option.some.injEq] at h
  obtain ⟨-, -, -, -, loadedNext, -, -, -, tables, -, -, -, stop, -, -, -, -, -, parsed,
    hparsed, rfl⟩ := h
  have hok : parsed.Ok := readObjects_keeps (P := Parsed.Ok) readTable_ok ok_empty hparsed
  refine ⟨hok.tables, hok.valid, ?_, ?_⟩
  · intro h0
    have := congrArg BitVec.toNat h0
    rw [BitVec.toNat_ofNat, Nat.mod_eq_of_lt (by omega)] at this
    simp at this
  intro name t hl
  have := hok.maxId hl
  by_cases hlast : min (max loadedNext (parsed.maxId + 1)) 65535 = 65535
  · exact .inr (by rw [hlast]; rfl)
  · refine .inl ?_
    rw [BitVec.lt_def, BitVec.toNat_ofNat]
    omega

/-! ## Loads and runs -/

theorem loadFromChecked_cases (reg : Registry) (file : CatalogFile) :
    (loadFromChecked reg file).1 = .loaded ∧ (loadFromChecked reg file).2.WellFormed ∨
    (loadFromChecked reg file).1 ≠ .loaded ∧ (loadFromChecked reg file).2 = reg := by
  cases file with
  | missing | unreadable => exact .inr ⟨nofun, rfl⟩
  | bytes s =>
    rw [loadFromChecked]
    split
    next hread =>
      exact .inl ⟨rfl, readCatalog_wellFormed hread⟩
    · exact .inr ⟨nofun, rfl⟩

theorem distinct_step (reg : Registry) (e : RegistryEvent) (h : reg.tables.Distinct) :
    (registryMachine.step reg e).2.tables.Distinct := by
  cases e with
  | create name cols placement =>
    refine answer_keeps (P := fun reg => reg.tables.Distinct) h fun reg' hr => ?_
    obtain ⟨tableId, hid, hfree, rfl⟩ := create_eq_some hr
    exact h.insert rfl hid fun hl _ => not_uses hfree hl
  | drop name =>
    refine answer_keeps (P := fun reg => reg.tables.Distinct) h fun reg' hr => ?_
    obtain rfl := drop_eq_some hr
    exact h.erase name
  | restore schema =>
    refine answer_keeps (P := fun reg => reg.tables.Distinct) h fun reg' hr => ?_
    obtain ⟨hid, hfree, rfl⟩ := restore_eq_some hr
    exact h.insert rfl hid hfree
  | dropColumn name colName =>
    refine distinct_change (fun s s' hs => ?_) h
    obtain rfl := dropColumn_keeps hs
    exact ⟨rfl, rfl⟩
  | load file =>
    rcases loadFromChecked_cases reg file with ⟨-, hload⟩ | ⟨-, hload⟩
    · exact hload.tables
    · exact hload.symm ▸ h
  | _ => exact distinct_change (by rintro s s' ⟨⟩; exact ⟨rfl, rfl⟩) h

/-- Whatever the catalog file, a load installs a well-formed registry or fails and changes nothing;
and after every run of calls no two tables have the same id. -/
theorem catalog_load_wellFormed : (∀ reg file,
      (loadFromChecked reg file).1 = .loaded ∧ (loadFromChecked reg file).2.WellFormed ∨
      (loadFromChecked reg file).1 ≠ .loaded ∧ (loadFromChecked reg file).2 = reg) ∧
    ∀ events, (registryMachine.run {} events).tables.Distinct :=
  ⟨loadFromChecked_cases, fun events =>
    registryMachine.invariant_run distinct_step distinct_empty events⟩

end

end Zepto.Catalog
