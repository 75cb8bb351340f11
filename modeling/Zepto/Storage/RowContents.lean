import Zepto.Storage.ColumnLengths

/-!
# What a row leaves in its partition

`addTypedRow` adds the row behind all columns (`pushRow`) or leaves the rows as they were, up to
columns of zeros that it has added (`RowsKept`); `acceptsRow` tells which. So all columns get one
more row or none does (`addTypedRow_sizes`). The four appends of a tick all go through where the
partition takes the tick, none where it refuses it (`addTick_spec`).
-/

namespace Zepto.Storage

open ColumnContents List Zepto.Lib

/-! ## Rows and columns as lists -/

section

variable {cs cs' : List ColumnContents}

/-- The missing columns of a schema are added with `n` rows of zeros. -/
def widen (n : Nat) : List ColumnContents → List ColumnDef → List ColumnContents
  | cs, [] => cs
  | cs, d :: ds =>
    if cs.any fun c => c.name = d.name then widen n cs ds
    else widen n (cs ++ [⟨d.name, d.type, replicate n 0⟩]) ds

/-- The bits of a row for a column: zero if it does not name it, none if its value does not fit. -/
def cellBits (values : List TypedColumnValue) (name : String) (type : ColumnType) : Option Nat :=
  match values.find? fun v => v.name = name with
  | none => some 0
  | some v => if v.type = type then v.bits else none

def ColumnContents.pushCell (values : List TypedColumnValue) (c : ColumnContents) :
    ColumnContents :=
  c.push ((cellBits values c.name c.type).getD 0 % 256 ^ c.type.size)

/-- One more row in all columns, those of the schema included. -/
def pushRow (columns : List ColumnDef) (values : List TypedColumnValue) (cs : List ColumnContents) :
    List ColumnContents :=
  (widen (rowCount cs) cs columns).map (.pushCell values)

/-- The columns have the same rows; others may be added with zeros. -/
def RowsKept (cs cs' : List ColumnContents) : Prop :=
  ∃ extra, cs' = cs ++ extra ∧ ∀ c ∈ extra, ∃ m ≤ rowCount cs, c.rows = replicate m 0

theorem RowsKept.refl (cs : List ColumnContents) : RowsKept cs cs :=
  ⟨[], (append_nil cs).symm, by simp⟩

theorem RowsKept.rowCount_eq (h : RowsKept cs cs') : rowCount cs' = rowCount cs := by
  obtain ⟨extra, rfl, hextra⟩ := h
  cases cs with
  | cons c cs => rfl
  | nil =>
    cases extra with
    | nil => rfl
    | cons c extra =>
      obtain ⟨m, hm, hrows⟩ := hextra c mem_cons_self
      have : m = 0 := Nat.le_zero.mp hm
      show c.rows.length = 0
      rw [hrows, length_replicate, this]

theorem RowsKept.trans {cs'' : List ColumnContents} (h : RowsKept cs cs') (h' : RowsKept cs' cs'') :
    RowsKept cs cs'' := by
  have hcount := h.rowCount_eq
  obtain ⟨extra, rfl, hextra⟩ := h
  obtain ⟨extra', rfl, hextra'⟩ := h'
  refine ⟨extra ++ extra', append_assoc _ _ _, fun c hc => ?_⟩
  rcases mem_append.mp hc with hc | hc
  · exact hextra c hc
  · rw [← hcount]
    exact hextra' c hc

theorem RowsKept.concat (h : RowsKept cs cs') (name : String) (type : ColumnType) {m : Nat}
    (hm : m ≤ rowCount cs) : RowsKept cs (cs' ++ [⟨name, type, replicate m 0⟩]) := by
  obtain ⟨extra, rfl, hextra⟩ := h
  refine ⟨extra ++ [_], append_assoc _ _ _, fun c hc => ?_⟩
  rcases mem_append.mp hc with hc | hc
  · exact hextra c hc
  · rw [mem_singleton.mp hc]
    exact ⟨m, hm, rfl⟩

theorem widen_ne_nil {ds : List ColumnDef} (h : cs ≠ [] ∨ ds ≠ []) (n : Nat) :
    widen n cs ds ≠ [] := by
  induction ds generalizing cs with
  | nil => exact h.resolve_right (by simp)
  | cons d ds ih =>
    unfold widen
    split
    next hany =>
      refine ih (.inl ?_)
      rintro rfl
      cases hany
    · exact ih (.inl (by simp))

theorem rowsKept_widen (cs : List ColumnContents) (ds : List ColumnDef) :
    RowsKept cs (widen (rowCount cs) cs ds) := by
  have hmain : ∀ cs', RowsKept cs cs' → RowsKept cs (widen (rowCount cs) cs' ds) := by
    induction ds with
    | nil => exact fun _ h => h
    | cons d ds ih =>
      intro cs' h
      unfold widen
      split
      · exact ih cs' h
      exact ih _ (h.concat d.name d.type (le_refl _))
  exact hmain cs (.refl cs)

theorem length_widen {n : Nat} (h : ∀ c ∈ cs, c.rows.length = n) (ds : List ColumnDef) :
    ∀ c ∈ widen n cs ds, c.rows.length = n := by
  induction ds generalizing cs with
  | nil => exact h
  | cons d ds ih =>
    unfold widen
    split
    · exact ih h
    refine ih fun c hc => ?_
    rcases mem_append.mp hc with hc | hc
    · exact h c hc
    · rw [mem_singleton.mp hc, length_replicate]

theorem rowCount_map_push (hne : cs ≠ []) (values : List TypedColumnValue) :
    rowCount (cs.map (.pushCell values)) = rowCount cs + 1 := by
  cases cs with
  | nil => exact absurd rfl hne
  | cons c cs => simp [rowCount, pushCell, push]

theorem rowCount_pushRow {columns : List ColumnDef} (hne : columns ≠ [])
    (values : List TypedColumnValue) (cs : List ColumnContents) :
    rowCount (pushRow columns values cs) = rowCount cs + 1 := by
  unfold pushRow
  rw [rowCount_map_push (widen_ne_nil (.inr hne) _), (rowsKept_widen cs columns).rowCount_eq]

/-! ## Typed rows -/

/-- The end of the arena after one more row of each column, if there is room. -/
def reserveAll (arenaSize : Nat) : List ColumnVector → Nat → Option Nat
  | [], used => some used
  | c :: cs, used => (c.reserve arenaSize used).bind fun used' => reserveAll arenaSize cs used'

/-- The columns that the partition has of the schema have its types. -/
def typesMatch (p : Partition) (schema : TableSchema) : Bool :=
  schema.columns.all fun c => (p.getColumn c.name).all fun col => col.type = c.type

end

namespace Partition

variable {p : Partition} {n : Nat}

section

variable {a cs : List ColumnVector} {c : ColumnVector} {A B : List ColumnContents}
  {k : ColumnContents} {used : Nat}

/-- The types agree, and there is room for the missing columns and the row. -/
def acceptsRow (p : Partition) (schema : TableSchema) (values : List TypedColumnValue) : Bool :=
  typesMatch p schema &&
    (fillColumns p.arenaSize p.numRows p.columns schema.columns p.arenaUsed).any fun r =>
      (r.1.all fun c => (cellBits values c.name c.type).isSome) &&
        (reserveAll p.arenaSize r.1 r.2).isSome

section

variable (hp : p.columns = a ++ c :: cs)

include hp

theorem getElem_at : p.columns[a.length]? = some c := by
  rw [hp]
  simp

section

variable (hk : p.contents = A ++ k :: B) (hlen : A.length = a.length)

include hk hlen

theorem contents_at : c.contents p.mem = k := by
  have := contents_getElem (getElem_at hp)
  rw [hk, ← hlen] at this
  simpa using this.symm

theorem append_contents_at (h : c.reserve p.arenaSize p.arenaUsed = some used) (bits : Nat) :
    (p.append a.length c.type.size bits).1.contents =
      A ++ k.push (bits % 256 ^ c.type.size) :: B := by
  rw [append_contents (getElem_at hp) rfl h, contents_at hp hk hlen, hk, ← hlen]
  rw [set_append_right _ _ (le_refl _), Nat.sub_self, set_cons_zero]

end

theorem append_columns_at (h : c.reserve p.arenaSize p.arenaUsed = some used) (width bits : Nat) :
    (p.append a.length width bits).1.columns = (a ++ [c.next p.arenaUsed]) ++ cs := by
  rw [(append_next (getElem_at hp) h width bits).2.1, hp, set_append_right _ _ (le_refl _),
    Nat.sub_self, append_assoc]
  rfl

theorem append_full_at (h : c.reserve p.arenaSize p.arenaUsed = none) (width bits : Nat) :
    p.append a.length width bits = (p, false) := by
  refine append_full (fun d hd => ?_) width bits
  rw [getElem_at hp] at hd
  cases hd
  exact h

end

theorem next_type (c : ColumnVector) (used : Nat) : (c.next used).type = c.type := by
  unfold ColumnVector.next
  split <;> rfl

theorem appendZeros_contents (hp : p.columns = a ++ [c]) (hk : p.contents = A ++ [k])
    (hlen : A.length = a.length) {width : Nat} (hwidth : width = c.type.size) :
    ∃ m ≤ n, (p.appendZeros a.length width n).2.contents =
        A ++ [{ k with rows := k.rows ++ replicate m 0 }] ∧
      ((p.appendZeros a.length width n).1 → m = n) := by
  subst hwidth
  induction n generalizing p c k with
  | zero => exact ⟨0, le_refl 0, by simp [appendZeros, hk], fun _ => rfl⟩
  | succ n ih =>
    unfold appendZeros
    cases hroom : c.reserve p.arenaSize p.arenaUsed with
    | none =>
      rw [append_full_at hp hroom]
      exact ⟨0, Nat.zero_le _, by simp [hk], (nomatch ·)⟩
    | some used =>
      obtain ⟨hok, -⟩ := append_next (getElem_at hp) hroom c.type.size 0
      have hcols := append_columns_at hp hroom c.type.size 0
      have hcont := append_contents_at hp hk hlen hroom 0
      rw [append_nil] at hcols
      rw [if_pos hok]
      obtain ⟨m, hm, hrows, hdone⟩ := ih hcols hcont
      rw [next_type] at hrows hdone
      refine ⟨m + 1, by omega, ?_, fun h => by rw [hdone h]⟩
      rw [hrows, replicate_succ]
      simp [push]

/-- What adding the columns of a schema leaves. -/
theorem addMissing_contents {cs : List ColumnContents} (h : RowsKept cs p.contents)
    (ds : List ColumnDef) : let r := p.addMissing (rowCount cs) ds
    RowsKept cs r.2.contents ∧ (r.1 → r.2.contents = widen (rowCount cs) p.contents ds) := by
  induction ds generalizing p with
  | nil => exact ⟨h, fun _ => rfl⟩
  | cons d ds ih =>
    unfold addMissing widen
    rw [getColumn_isSome_contents]
    split
    · exact ih h
    obtain ⟨hcols, -⟩ := addColumn_fresh p d
    have hfresh : (ColumnVector.fresh p.arenaSize p.arenaUsed d).1.type = d.type := by
      unfold ColumnVector.fresh
      simp only
      split <;> rfl
    obtain ⟨m, hm, hcont, hfull⟩ := appendZeros_contents (n := rowCount cs) hcols
      (addColumn_contents p d.name d.type) (by simp [contents]) (congrArg _ hfresh.symm)
    rw [nil_append] at hcont
    have hkept := h.concat d.name d.type hm
    rw [← hcont] at hkept
    simp only
    split_ifs with hok
    · obtain ⟨hkeep, hdone⟩ := ih hkept
      exact ⟨hkeep, fun h => by rw [hdone h, hcont, hfull hok]⟩
    · exact ⟨hkept, fun h => absurd h hok⟩

def Pushed (k k' : ColumnContents) : Prop := k' = k ∨ ∃ bits, k' = k.push bits

theorem appendRow_cons (p : Partition) (values : List TypedColumnValue) (c : ColumnVector)
    (cs : List ColumnVector) (i : Nat) :
    p.appendRow values (c :: cs) i = match cellBits values c.name c.type with
      | none => (false, p)
      | some bits =>
        if (p.append i c.type.size bits).2 then
          (p.append i c.type.size bits).1.appendRow values cs (i + 1)
        else (false, (p.append i c.type.size bits).1) := rfl

/-- The values go in exactly where all fit and there is room for each. -/
theorem appendRow_spec (values : List TypedColumnValue) (hp : p.columns = a ++ cs)
    (hk : p.contents = A ++ B) (hlen : A.length = a.length) :
    let r := p.appendRow values cs a.length
    (r.1 = ((cs.all fun c => (cellBits values c.name c.type).isSome) &&
      (reserveAll p.arenaSize cs p.arenaUsed).isSome)) ∧
    (r.1 → r.2.contents = A ++ B.map (.pushCell values)) ∧
    ∃ B', r.2.contents = A ++ B' ∧ Forall₂ Pushed B B' := by
  have hkeep : ∀ B : List ColumnContents, Forall₂ Pushed B B :=
    fun B => forall₂_same.mpr fun _ _ => .inl rfl
  induction cs generalizing p a A B with
  | nil =>
    have hB : B = [] := by
      have := congrArg length hk
      rw [contents, length_map, hp] at this
      simp only [append_nil, length_append] at this
      exact length_eq_zero_iff.mp (by omega)
    subst hB
    exact ⟨rfl, fun _ => hk, [], hk, .nil⟩
  | cons c cs ih =>
    obtain ⟨k, B, rfl⟩ : ∃ k B', B = k :: B' := by
      refine exists_cons_of_length_pos ?_
      have := congrArg length hk
      rw [contents, length_map, hp] at this
      simp only [length_append, length_cons] at this
      omega
    have hck := contents_at hp hk hlen
    have hname : k.name = c.name := by rw [← hck]; rfl
    have htype : k.type = c.type := by rw [← hck]; rfl
    unfold reserveAll
    rw [appendRow_cons, all_cons]
    cases hcell : cellBits values c.name c.type with
    | none => exact ⟨rfl, by simp, k :: B, hk, hkeep _⟩
    | some bits =>
      simp only
      cases hroom : c.reserve p.arenaSize p.arenaUsed with
      | none =>
        rw [append_full_at hp hroom]
        exact ⟨by simp, by simp, k :: B, hk, hkeep _⟩
      | some used =>
        obtain ⟨hok, -, hused, hsize⟩ := append_next (getElem_at hp) hroom c.type.size bits
        have hcols := append_columns_at hp hroom c.type.size bits
        have hcont := append_contents_at hp hk hlen hroom bits
        rw [if_pos hok]
        have hrest := ih (A := A ++ [k.push (bits % 256 ^ c.type.size)]) (B := B) hcols
          (by rw [hcont, append_assoc]; rfl) (by simp [hlen])
        rw [hused, hsize, length_append, length_singleton] at hrest
        obtain ⟨hiff, hall, B', hB', hpushed⟩ := hrest
        refine ⟨hiff, fun h => ?_, k.push (bits % 256 ^ c.type.size) :: B', ?_, ?_⟩
        · rw [hall h, append_assoc, map_cons, pushCell, hname, htype, hcell]
          rfl
        · rw [hB', append_assoc]
          rfl
        · exact .cons (.inr ⟨_, rfl⟩) hpushed

theorem contents_setSize (c : ColumnVector) (m : Mem) (n : Nat) : (c.setSize n).contents m =
      { c.contents m with rows := (c.contents m).rows.take n } := by
  unfold ColumnVector.contents
  rw [← map_take, take_range, c.setSize_size, c.setSize_name]
  unfold ColumnVector.bits
  rw [c.setSize_addr, c.setSize_type]

theorem restoreSizes_contents {q : Partition} (h : Forall₂ Pushed q.contents p.contents) :
    (p.restoreSizes (q.columns.map ColumnVector.size)).contents = q.contents := by
  have hlen : q.columns.length = p.columns.length := by
    simpa [contents] using h.length_eq
  rw [forall₂_iff_get] at h
  refine ext_getElem (by simp [restoreSizes, contents, hlen]) fun j hj hjq => ?_
  have hjc : j < p.columns.length := by simpa [restoreSizes, contents] using hj
  have hpush := h.2 j hjq (by simpa [contents] using hjc)
  simp only [get_eq_getElem, contents, getElem_map] at hpush
  have hlenq : ((q.columns.get ⟨j, by omega⟩).contents q.mem).rows.length =
      (q.columns.get ⟨j, by omega⟩).size := by simp [ColumnVector.contents]
  simp only [get_eq_getElem] at hlenq
  simp only [restoreSizes, contents, getElem_map, getElem_mapIdx, contents_setSize,
    getD_eq_getElem?_getD, getElem?_map, getElem?_eq_getElem (hlen ▸ hjc),
    Option.map_some, Option.getD_some]
  rcases hpush with heq | ⟨bits, heq⟩
  · rw [heq, ← hlenq, take_length]
  · rw [heq, ← hlenq]
    simp [push]

/-- A typed row goes in as a whole or leaves the rows as they were. -/
theorem addTypedRow_spec (p : Partition) (schema : TableSchema) (values : List TypedColumnValue) :
    let r := p.addTypedRow schema values
    r.1 = p.acceptsRow schema values ∧
    (p.acceptsRow schema values → r.2.contents = pushRow schema.columns values p.contents) ∧
    (p.acceptsRow schema values = false → RowsKept p.contents r.2.contents ∧
      (p.backfills schema → r.2.contents = p.contents ∨
        r.2.contents = widen (rowCount p.contents) p.contents schema.columns)) := by
  unfold addTypedRow acceptsRow
  cases htypes : typesMatch p schema with
  | false =>
    rw [if_neg (Bool.not_eq_true _ ▸ htypes)]
    exact ⟨rfl, (nomatch ·), fun _ => ⟨.refl _, fun _ => .inl rfl⟩⟩
  | true =>
    rw [if_pos (show (schema.columns.all fun c =>
      (p.getColumn c.name).all fun col => col.type = c.type) = true from htypes)]
    have hfill := addMissing_spec p p.numRows schema.columns
    obtain ⟨hkeeps, hwiden⟩ := addMissing_contents (.refl p.contents) schema.columns
    rw [← numRows_eq_rowCount] at hkeeps hwiden
    simp only [backfills]
    cases hroom : fillColumns p.arenaSize p.numRows p.columns schema.columns p.arenaUsed with
    | none =>
      rw [hroom] at hfill
      rw [if_neg (by rw [show _ = false from hfill]; exact Bool.false_ne_true)]
      exact ⟨hfill, (nomatch ·), fun _ => ⟨hkeeps, (nomatch ·)⟩⟩
    | some r =>
      rw [hroom] at hfill
      obtain ⟨hok, hcols, hused, hsize⟩ := hfill
      have hwide := hwiden hok
      generalize (p.addMissing p.numRows schema.columns).2 = q at *
      obtain ⟨hiff, hall, B', hB', hpushed⟩ := appendRow_spec (p := q) values (a := [])
        (A := []) (B := q.contents) (show q.columns = [] ++ q.columns from rfl) rfl rfl
      rw [hcols, hused, hsize, length_nil] at hiff
      simp only [length_nil] at hall hB'
      simp only [Option.any_some]
      rw [← hiff, ← hcols]
      split_ifs with hdone
      · refine ⟨rfl, fun _ => ?_, fun h => by rw [hdone] at h; cases h⟩
        rw [hall hdone, hwide, numRows_eq_rowCount]
        rfl
      refine ⟨(Bool.eq_false_of_not_eq_true hdone).symm, fun h => absurd h hdone, fun _ => ?_⟩
      rw [restoreSizes_contents (hB' ▸ hpushed)]
      exact ⟨hkeeps, fun _ => .inr (numRows_eq_rowCount p ▸ hwide)⟩

theorem aligned_iff (p : Partition) : p.Aligned n ↔ ∀ c ∈ p.contents, c.rows.length = n := by
  simp [Aligned, sizes, contents, ColumnVector.contents]

theorem addTypedRow_sizes {schema : TableSchema} (values : List TypedColumnValue)
    (hp : p.Aligned n) (hn : p.numRows = n) (hfill : p.backfills schema)
    (hne : schema.columns ≠ []) :
    let r := p.addTypedRow schema values
    r.2.Aligned (if r.1 then n + 1 else n) ∧ r.2.numRows = if r.1 then n + 1 else n := by
  intro r
  obtain ⟨hok, haccepted, hrefused⟩ := p.addTypedRow_spec schema values
  rw [aligned_iff] at hp
  rw [numRows_eq_rowCount] at hn
  rw [aligned_iff, numRows_eq_rowCount]
  have hwide := length_widen hp schema.columns
  rw [← hn] at hp hwide ⊢
  cases haccepts : p.acceptsRow schema values with
  | true =>
    rw [show r.1 = true from hok.trans haccepts, show r.2.contents = _ from haccepted haccepts]
    refine ⟨fun c hc => ?_, rowCount_pushRow hne values p.contents⟩
    obtain ⟨k, hk, rfl⟩ := mem_map.mp hc
    simp [pushCell, push, hwide k hk]
  | false =>
    rw [show r.1 = false from hok.trans haccepts]
    rcases (hrefused haccepts).2 hfill with hsame | hsame
    · rw [show r.2.contents = _ from hsame]
      exact ⟨hp, rfl⟩
    · rw [show r.2.contents = _ from hsame]
      exact ⟨hwide, (rowsKept_widen p.contents schema.columns).rowCount_eq⟩

end

end Partition

/-! ## Typed rows of a database -/

def TypedRowMessage.key (row : TypedRowMessage) : PartitionKey :=
  ⟨row.tableId, row.symbolId, toHourEpoch row.timestamp⟩

/-- The schema of a typed row that gets as far as its partition. -/
def acceptedSchema (db : Database) (row : TypedRowMessage) : Option TableSchema :=
  if row.tableId = 0 ∨ row.columns.isEmpty then none
  else
    (db.registry.getById row.tableId).bind fun e =>
      if rowFits e.2 row.columns && (bindCodes db.symbolDict row.columns).1 then some e.2 else none

/-- Where a typed row leaves its partition. -/
theorem ingestTypedRow_spec (arenaSize : Fin (2 ^ 32)) (db : Database) (row : TypedRowMessage) :
    let s := ingestTypedRow arenaSize db row
    match acceptedSchema db row with
    | none => s.1 = false ∧ ∀ k, s.2.partitionAt k = db.partitionAt k
    | some schema =>
      schema.columns ≠ [] ∧
      let r := (db.partitionFor arenaSize row.key).addTypedRow schema row.columns
      s.1 = r.1 ∧ ∀ k, s.2.partitionAt k = if k = row.key then some r.2 else db.partitionAt k := by
  unfold acceptedSchema ingestTypedRow
  by_cases hempty : row.tableId = 0 ∨ row.columns.isEmpty
  · rw [if_pos hempty, if_pos hempty]
    exact ⟨rfl, fun _ => rfl⟩
  rw [if_neg hempty, if_neg hempty]
  cases hget : db.registry.getById row.tableId with
  | none => exact ⟨rfl, fun _ => rfl⟩
  | some e =>
    obtain ⟨name, schema⟩ := e
    simp only [Option.bind_some]
    cases hfits : rowFits schema row.columns with
    | false => exact ⟨rfl, fun _ => rfl⟩
    | true =>
      cases hbound : (bindCodes db.symbolDict row.columns).1 with
      | false => exact ⟨rfl, fun _ => rfl⟩
      | true =>
        simp only [Bool.not_true, Bool.false_eq_true, if_false]
        -- A row that fits names a column of the schema.
        have hcols : schema.columns ≠ [] := by
          intro hnil
          cases hrow : row.columns with
          | nil => exact hempty (.inr (by rw [hrow]; rfl))
          | cons v vs => simp [rowFits, hrow, hnil] at hfits
        refine ⟨hcols, ?_⟩
        obtain ⟨hanswer, hat⟩ := Database.editPartition_spec
          { db with symbolDict := (bindCodes db.symbolDict row.columns).2 } arenaSize
          row.key ⟨fun p => p.addTypedRow schema row.columns,
            fun p => p.addTypedRow_key schema row.columns⟩
        split
        next hdone =>
          exact ⟨hanswer ▸ hdone.symm, hat⟩
        · exact ⟨hanswer, hat⟩

namespace Database

/-- What the partition of a key holds, nothing if there is none. -/
def contentsOf (db : Database) (k : PartitionKey) : List ColumnContents :=
  ((db.partitionAt k).map Partition.contents).getD []

theorem contents_partitionFor (db : Database) (arenaSize : Fin (2 ^ 32)) (k : PartitionKey) :
    (db.partitionFor arenaSize k).contents = db.contentsOf k := by
  unfold partitionFor contentsOf
  cases db.partitionAt k <;> rfl

def accepts (db : Database) (arenaSize : Fin (2 ^ 32)) (row : TypedRowMessage) : Bool :=
  (acceptedSchema db row).any fun schema =>
    (db.partitionFor arenaSize row.key).acceptsRow schema row.columns

/-- A typed row is stored as a whole, or the rows stay as they were. -/
theorem ingestTypedRow_contents (db : Database) (arenaSize : Fin (2 ^ 32)) (row : TypedRowMessage) :
    let r := ingestTypedRow arenaSize db row
    r.1 = db.accepts arenaSize row ∧
    (db.accepts arenaSize row → ∃ schema, acceptedSchema db row = some schema ∧
      schema.columns ≠ [] ∧ ∀ k, r.2.contentsOf k =
        if k = row.key then pushRow schema.columns row.columns (db.contentsOf k)
        else db.contentsOf k) ∧
    (db.accepts arenaSize row = false → ∀ k, RowsKept (db.contentsOf k) (r.2.contentsOf k)) := by
  have hspec := ingestTypedRow_spec arenaSize db row
  unfold accepts
  cases hschema : acceptedSchema db row with
  | none =>
    rw [hschema] at hspec
    refine ⟨hspec.1, (nomatch ·), fun _ k => ?_⟩
    unfold contentsOf
    rw [hspec.2 k]
    exact .refl _
  | some schema =>
    rw [hschema] at hspec
    obtain ⟨hcols, hanswer, hat⟩ := hspec
    obtain ⟨hiff, hpush, hkeep⟩ :=
      (db.partitionFor arenaSize row.key).addTypedRow_spec schema row.columns
    rw [contents_partitionFor] at hpush hkeep
    have hcont : ∀ k, (ingestTypedRow arenaSize db row).2.contentsOf k = if k = row.key then
          ((db.partitionFor arenaSize row.key).addTypedRow schema row.columns).2.contents
        else db.contentsOf k := by
      intro k
      unfold contentsOf
      rw [hat k]
      split <;> rfl
    refine ⟨hanswer.trans hiff, fun h => ⟨schema, rfl, hcols, fun k => ?_⟩, fun h k => ?_⟩
    · rw [hcont k]
      split
      next hk =>
        rw [hk, hpush h]
      · rfl
    · rw [hcont k]
      split
      next hk =>
        rw [hk]
        exact (hkeep h).1
      · exact .refl _

end Database

/-! ## Ticks -/

def headers (cs : List ColumnContents) : List (String × ColumnType) :=
  cs.map fun k => (k.name, k.type)

def TickShape (cs : List ColumnContents) : Prop :=
  (headers cs).map (fun h => (h.1, h.2.size)) =
    [("timestamp", 8), ("price", 8), ("volume", 8), ("msg_type", 4)]

/-- The columns that a tick adds to a partition without a timestamp column. -/
def tickColumns (msg : TickMessage) (cs : List ColumnContents) : List ColumnContents :=
  if cs.any fun k => k.name = "timestamp" then cs
  else cs ++ tickContents (if msg.priceIsFloat then .float64 else .int64) []

def pushNamed (cs : List ColumnContents) (cell : String × Nat × Nat) : List ColumnContents :=
  cs.map fun k => if k.name = cell.1 then k.push cell.2.2 else k

def pushTick (cs : List ColumnContents) (msg : TickMessage) : List ColumnContents :=
  msg.cells.foldl pushNamed (tickColumns msg cs)

variable {cs : List ColumnContents}

theorem TickShape.names (h : TickShape cs) : cs.map name = Partition.tickNames := by
  have := congrArg (map Prod.fst) h
  rw [headers, map_map, map_map] at this
  exact this

theorem TickShape.tickColumns_eq (h : TickShape cs) (msg : TickMessage) :
    tickColumns msg cs = cs := by
  have hmem : "timestamp" ∈ cs.map name := by
    rw [h.names]
    decide
  obtain ⟨k, hk, hname⟩ := mem_map.mp hmem
  exact if_pos (any_eq_true.mpr ⟨k, hk, by simpa using hname⟩)

theorem headers_pushNamed (cs : List ColumnContents) (cell : String × Nat × Nat) :
    headers (pushNamed cs cell) = headers cs := by
  unfold headers pushNamed
  rw [map_map]
  refine map_congr_left fun k _ => ?_
  simp only [Function.comp]
  split <;> rfl

theorem headers_foldl_pushNamed (cs : List ColumnContents) (cells : List (String × Nat × Nat)) :
    headers (cells.foldl pushNamed cs) = headers cs := by
  induction cells generalizing cs with
  | nil => rfl
  | cons cell cells ih => rw [foldl_cons, ih, headers_pushNamed]

namespace Partition

variable {p : Partition}

section

variable {msg : TickMessage} {cs : List ColumnContents} {price : ColumnType} {rows : List TickRow}

/-- The end of the arena after one more row of the named column. -/
def roomFor (p : Partition) (name : String) : Option Nat :=
  (p.getColumn name).bind fun c => c.reserve p.arenaSize p.arenaUsed

def refusesTick (p : Partition) : Bool := tickNames.all fun name => (p.roomFor name).isNone

theorem names_eq_contents (p : Partition) : p.names = p.contents.map name := by
  rw [contents, map_map]
  rfl

theorem appendNamed_cases {name : String} {width bits : Nat} (hnodup : p.names.Nodup)
    (hcell : ∀ h ∈ headers p.contents, h.1 = name → width = h.2.size) (hbits : bits < 256 ^ width) :
    let q := p.appendNamed name width bits
    (∃ used, p.roomFor name = some used ∧ q.contents = pushNamed p.contents (name, width, bits) ∧
      q.arenaUsed = used ∧ q.arenaSize = p.arenaSize ∧
      ∀ other, other ≠ name → q.getColumn other = p.getColumn other) ∨
    p.roomFor name = none ∧ q = p := by
  cases hget : p.getColumn name with
  | none =>
    refine .inr ⟨by rw [roomFor, hget]; rfl, ?_⟩
    unfold appendNamed
    rw [append_full]
    intro c hc
    have hidx := (List.getElem?_eq_some_iff.mp hc).1
    have := findIdx_getElem (w := hidx)
    have hmem := find?_eq_none.mp hget _ (getElem_mem hidx)
    simp [this] at hmem
  | some c =>
    have hname : c.name = name := by simpa using find?_some hget
    have hi := find?_eq_getElem?_findIdx.symm.trans hget
    cases hroom : c.reserve p.arenaSize p.arenaUsed with
    | none =>
      refine .inr ⟨by rw [roomFor, hget]; exact hroom, ?_⟩
      unfold appendNamed
      rw [append_full]
      intro d hd
      rw [hi] at hd
      cases hd
      exact hroom
    | some used =>
      obtain ⟨-, -, hused, hsize, hother⟩ := appendNamed_shape hnodup hget hroom width bits
      refine .inl ⟨used, by rw [roomFor, hget]; exact hroom, ?_, hused, hsize, hother⟩
      have hmem := mem_of_getElem? hi
      have hwidth : width = c.type.size :=
        hcell (c.name, c.type) (mem_map.mpr ⟨_, mem_map_of_mem hmem, rfl⟩) hname
      unfold appendNamed
      rw [append_contents hi hwidth hroom, Nat.mod_eq_of_lt hbits]
      have hset := set_eq_map_of_nodup (l := p.contents) ColumnContents.name (·.push bits)
        (names_eq_contents p ▸ hnodup) (contents_getElem hi)
      rw [hset]
      rw [← hname]
      rfl

/-- Appending several cells, each of another name: those that found room. -/
theorem appendAll_contents (cells : List (String × Nat × Nat)) (hnodup : p.names.Nodup)
    (hcells : (cells.map Prod.fst).Nodup)
    (hwidth : ∀ cell ∈ cells, cell.2.2 < 256 ^ cell.2.1 ∧
      ∀ h ∈ headers p.contents, h.1 = cell.1 → cell.2.1 = h.2.size) :
    ∃ done, done.Sublist cells ∧
      (cells.foldl (fun q cell => q.appendNamed cell.1 cell.2.1 cell.2.2) p).contents =
        done.foldl pushNamed p.contents ∧
      ((p.reserveNamed (cells.map Prod.fst) p.arenaUsed).isSome ↔ done = cells) ∧
      ((∀ cell ∈ cells, p.roomFor cell.1 = none) ↔ done = []) := by
  induction cells generalizing p with
  | nil => exact ⟨[], .slnil, rfl, by simp [reserveNamed], by simp⟩
  | cons cell cells ih =>
    obtain ⟨name, width, bits⟩ := cell
    rw [map_cons, nodup_cons] at hcells
    obtain ⟨hbits, hcell⟩ := hwidth _ mem_cons_self
    have hroom : p.reserveNamed (((name, width, bits) :: cells).map Prod.fst) p.arenaUsed =
        (p.roomFor name).bind fun used => p.reserveNamed (cells.map Prod.fst) used := by
      rw [map_cons, reserveNamed, roomFor, Option.bind_assoc]
    rw [hroom, foldl_cons]
    rcases appendNamed_cases hnodup hcell hbits with
      ⟨used, hsome, hcont, hused, hsize, hother⟩ | ⟨hnone, hsame⟩
    · have hnames : (p.appendNamed name width bits).names = p.names := append_names _ _ _ _
      have hheaders : headers (p.appendNamed name width bits).contents = headers p.contents := by
        rw [hcont, headers_pushNamed]
      obtain ⟨done, hsub, hdone, htakes, -⟩ := ih (p := p.appendNamed name width bits)
        (hnames ▸ hnodup) hcells.2 fun cell hmem => by
          rw [hheaders]
          exact hwidth cell (mem_cons_of_mem _ hmem)
      rw [hused, reserveNamed_congr hsize fun m hm => hother m fun heq => hcells.1 (heq ▸ hm)]
        at htakes
      refine ⟨(name, width, bits) :: done, hsub.cons_cons _, ?_, ?_, ?_⟩
      · rw [hdone, hcont]
        rfl
      · rw [hsome, Option.bind_some, htakes]
        simp
      · simp [hsome]
    · rw [hsame]
      obtain ⟨done, hsub, hdone, -, hrefuses⟩ := ih hnodup hcells.2
        fun cell hmem => hwidth cell (mem_cons_of_mem _ hmem)
      refine ⟨done, hsub.cons _, hdone, ?_, ?_⟩
      · rw [hnone]
        refine iff_of_false (by simp) fun heq => ?_
        have := hsub.length_le
        rw [heq] at this
        simp at this
      · rw [← hrefuses]
        simp [hnone]

theorem addTickColumns_contents (p : Partition) (msg : TickMessage) :
    (p.addTickColumns msg).contents = tickColumns msg p.contents := by
  unfold addTickColumns tickColumns
  rw [getColumn_isSome_contents]
  split
  · rfl
  · simp only [addColumn_contents, append_assoc]
    rfl

theorem tickShape_tickColumns (h : cs = [] ∨ TickShape cs) : TickShape (tickColumns msg cs) := by
  rcases h with rfl | h
  · simp only [tickColumns, any_nil, Bool.false_eq_true, if_false]
    split <;> rfl
  · rw [h.tickColumns_eq]
    exact h

theorem bits_lt (msg : TickMessage) : ∀ cell ∈ msg.cells, cell.2.2 < 256 ^ cell.2.1 := by
  simp only [TickMessage.cells, forall_mem_cons]
  refine ⟨unsigned_lt 64 _, unsigned_lt 64 _, unsigned_lt 64 _, ?_, nofun⟩
  omega

theorem cells_fit (h : TickShape cs) : ∀ cell ∈ msg.cells, cell.2.2 < 256 ^ cell.2.1 ∧
      ∀ h ∈ headers cs, h.1 = cell.1 → cell.2.1 = h.2.size := by
  have hmem : ∀ e ∈ headers cs, (e.1, e.2.size) ∈
      [("timestamp", 8), ("price", 8), ("volume", 8), ("msg_type", 4)] := fun e he =>
    h ▸ mem_map_of_mem (f := fun e : String × ColumnType => (e.1, e.2.size)) he
  refine fun cell hcell => ⟨bits_lt msg cell hcell, fun e he hname => ?_⟩
  have := hmem e he
  simp only [TickMessage.cells, mem_cons, not_mem_nil, or_false] at hcell
  rcases hcell with rfl | rfl | rfl | rfl <;> simp_all

/-- The cells that found room: all where the partition takes the tick, none where it refuses. -/
theorem addTick_spec (p : Partition) (msg : TickMessage)
    (h : p.contents = [] ∨ TickShape p.contents) :
    ∃ done, done.Sublist msg.cells ∧
      (p.addTick msg).contents = done.foldl pushNamed (tickColumns msg p.contents) ∧
      ((p.addTickColumns msg).takesTick ↔ done = msg.cells) ∧
      ((p.addTickColumns msg).refusesTick ↔ done = []) := by
  rw [addTick_eq, ← addTickColumns_contents]
  have hshape : TickShape (p.addTickColumns msg).contents := by
    rw [addTickColumns_contents]
    exact tickShape_tickColumns h
  generalize p.addTickColumns msg = q at hshape
  have hnames : q.names = tickNames := (names_eq_contents q).trans hshape.names
  have hnodup : q.names.Nodup := hnames ▸ (by decide)
  obtain ⟨done, hsub, hdone, htakes, hrefuses⟩ := appendAll_contents msg.cells hnodup
    (show tickNames.Nodup by decide) (cells_fit hshape)
  refine ⟨done, hsub, hdone, ?_, ?_⟩
  · rw [← htakes, takesTick, hnames]
    simp [TickMessage.cells, tickNames]
  · rw [← hrefuses]
    simp [refusesTick, TickMessage.cells, tickNames]

theorem takesTick_of_hasRoom (h : p.contents = tickContents price rows) (hroom : p.hasRoom) :
    p.takesTick := by
  have hnames := congrArg (map name) h
  simp only [contents, tickContents, map_map, map_cons, map_nil, map_eq_cons_iff,
    map_eq_nil_iff] at hnames
  obtain ⟨ts, _, hcols, hts, px, _, rfl, hpx, vol, _, rfl, hvol, mt, _, rfl, hmt, rfl⟩ := hnames
  simp only [Function.comp, ColumnVector.contents] at hts hpx hvol hmt
  unfold hasRoom at hroom
  unfold takesTick
  simpa [names, getColumn, hcols, hts, hpx, hvol, hmt, tickNames, reserveNamed,
    Option.bind_assoc] using hroom

/-- A tick is one more row, if the arena has room for it. -/
theorem addTick_contents (h : tickColumns msg p.contents = tickContents price rows)
    (hprice : price.size = 8) (hroom : (p.addTickColumns msg).hasRoom) :
    (p.addTick msg).contents = tickContents price (rows ++ [msg.row]) := by
  have hshape : p.contents = [] ∨ TickShape p.contents := by
    unfold tickColumns at h
    split at h
    · right
      rw [h]
      show [("timestamp", 8), ("price", price.size), ("volume", 8), ("msg_type", 4)] = _
      rw [hprice]
    · have := congrArg length h
      exact .inl (by simpa [tickContents] using this)
  obtain ⟨done, -, hcont, htakes, -⟩ := addTick_spec p msg hshape
  have htake := takesTick_of_hasRoom ((addTickColumns_contents p msg).trans h) hroom
  rw [hcont, htakes.mp htake, h]
  simp [TickMessage.cells, pushNamed, tickContents, push, TickMessage.row]

end

end Partition

namespace Database

variable {db : Database}

/-- A tick becomes the last row of its partition, if there is room. -/
theorem HoldsTicks.storeTick {rows : PartitionKey → List TickRow} (h : db.HoldsTicks rows)
    {arenaSize : Fin (2 ^ 32)} {msg : TickMessage}
    (hroom : ((db.partitionFor arenaSize msg.key).addTickColumns msg).hasRoom) :
    (storeTick arenaSize db msg).HoldsTicks fun k =>
      if k = msg.key then rows k ++ [msg.row] else rows k := by
  intro k
  rw [partitionAt_storeTick]
  by_cases hk : k = msg.key
  · subst hk
    rw [if_pos rfl]
    beta_reduce
    rw [if_pos rfl]
    have hkey := h msg.key
    unfold partitionFor at hroom ⊢
    cases hp : db.partitionAt msg.key with
    | none =>
      rw [hp] at hkey hroom
      rw [show rows msg.key = [] from hkey]
      refine ⟨_, ?_, Partition.addTick_contents rfl ?_ hroom⟩
      all_goals split <;> rfl
    | some p =>
      rw [hp] at hkey hroom
      obtain ⟨price, hsize, hcont⟩ := hkey
      refine ⟨price, hsize, Partition.addTick_contents ?_ hsize hroom⟩
      rw [Option.getD_some, hcont]
      rfl
  · rw [if_neg hk]
    beta_reduce
    rw [if_neg hk]
    exact h k

end Database

end Zepto.Storage
