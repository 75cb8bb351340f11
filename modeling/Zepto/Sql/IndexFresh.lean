import Zepto.Lib.Machine
import Zepto.Sql.AlterFrame
import Zepto.Sql.Delete
import Zepto.Sql.Update
import Zepto.Storage.Attributes
import Zepto.Storage.RowContents

/-!
# Freshness of the attributes

An attribute is set once, on the column as it then is; appends, `UPDATE` and `DELETE` change the
column and leave the attribute alone. `Fresh` says that the lookups of all attributes answer for the
rows there are now. It holds along runs whose changes keep the columns of attributes
(`Admissible`, `attributes_fresh`).
-/

namespace Zepto.Storage

open Zepto.Storage.Partition List Zepto.Lib

/-! ## Columns as lists of values -/

namespace ColumnContents

def value (k : ColumnContents) (i : Nat) : Int := k.type.toI64 (k.rows.getD i 0)

def Ascends (k : ColumnContents) : Prop :=
  ∀ i j, i ≤ j → j < k.rows.length → k.value i ≤ k.value j

def Clusters (k : ColumnContents) : Prop :=
  ∀ i j l, i ≤ j → j ≤ l → l < k.rows.length → k.value i = k.value l → k.value j = k.value i

end ColumnContents

section

variable {p : Partition} {c : ColumnVector} {m : Mem} {col : String} {i : Nat}

theorem length_rows_contents (c : ColumnVector) (m : Mem) :
    (c.contents m).rows.length = c.size := by
  simp [ColumnVector.contents]

theorem value_contents (hc : c.Fits) (hi : i < c.size) :
    (c.contents m).value i = c.readI64 m i := by
  unfold ColumnContents.value ColumnVector.readI64
  rw [if_neg (not_or.mpr ⟨by omega, hc.data_ne_none hi⟩)]
  simp [ColumnVector.contents, hi]

theorem columnOf_of_getColumn (hc : p.getColumn col = some c) :
    columnOf p.contents col = some (c.contents p.mem) := by
  rw [columnOf_contents, hc]
  rfl

theorem ascending_of_ascends (hc : c.Fits) (h : (c.contents m).Ascends) : c.Ascending m := by
  intro i j hij hj
  rw [← value_contents hc (by omega), ← value_contents hc hj]
  exact h i j hij (by rwa [length_rows_contents])

theorem clustered_of_clusters (hc : c.Fits) (h : (c.contents m).Clusters) : c.Clustered m := by
  intro i j l hij hjl hl
  have hi : i < c.size := by omega
  have hj : j < c.size := by omega
  rw [← value_contents hc hi, ← value_contents hc hj, ← value_contents hc hl]
  exact h i j l hij hjl (by rwa [length_rows_contents])

end

end Zepto.Storage

namespace Zepto.Sql

open Zepto.Lib Zepto.Storage List Zepto.Storage.Partition

variable {Q : Type}

/-! ## Operations on a partition -/

inductive PartitionOp (Q : Type) where
  | tick (msg : TickMessage)
  | typedRow (schema : TableSchema) (values : List TypedColumnValue)
  | update (env : Env) (dict : StringDictionary) (w : Option (Expr Q))
      (assignments : List UpdateAssign)
  | delete (env : Env) (dict : StringDictionary) (w : Option (Expr Q))
  | setSorted (col : String)
  | setGrouped (col : String)
  | setParted (col : String)

/-- The rows an `UPDATE` or `DELETE` is made on; none if the scan throws. -/
def changedRows (env : Env) (dict : StringDictionary) (w : Option (Expr Q)) (p : Partition) :
    List Nat :=
  if passesSymbolFilter dict w p then
    match evalWhere env p p.numRows w with
    | .ok rows => rows
    | .error _ => []
  else []

def PartitionOp.apply (p : Partition) : PartitionOp Q → Partition
  | .tick msg => p.addTick msg
  | .typedRow schema values => (p.addTypedRow schema values).2
  | .update env dict w assignments => updateRows assignments p (changedRows env dict w p)
  | .delete env dict w => deleteRows p (changedRows env dict w p)
  | .setSorted col => p.setSorted col
  | .setGrouped col => p.setGrouped col
  | .setParted col => p.setParted col

def partitionMachine : Machine Partition (PartitionOp Q) Unit where
  step p op := ((), op.apply p)

theorem changedRows_sublist (env : Env) (dict : StringDictionary) (w : Option (Expr Q))
    (p : Partition) : (changedRows env dict w p).Sublist (range p.numRows) := by
  unfold changedRows
  split
  · split
    next rows hrows =>
      rw [(evalWhere_eq_ok.mp hrows).2]
      exact scanWhere_sublist
    · exact nil_sublist _
  · exact nil_sublist _

def InValueRange (c : ColumnVector) (m : Mem) (i : Nat) (lo hi : Int) : Prop :=
  if c.type.isFloat then
    (decide (c.readF64 m i ≥ doubleOfInt lo) && decide (c.readF64 m i ≤ doubleOfInt hi)) = true
  else lo ≤ c.readI64 m i ∧ c.readI64 m i ≤ hi

def HasValue (c : ColumnVector) (m : Mem) (i : Nat) (v : Int) : Prop :=
  if c.type.isFloat then (c.readF64 m i == doubleOfInt v) = true else c.readI64 m i = v

/-- The lookups answer for the rows as they are. -/
structure Fresh (p : Partition) : Prop where
  sorted : ∀ col, p.isSorted col = true → ∀ lo hi i,
    ((p.sortedRange col lo hi).1 ≤ i ∧ i < (p.sortedRange col lo hi).2) ↔
      i < p.numRows ∧ ∃ c, p.getColumn col = some c ∧ InValueRange c p.mem i lo hi
  grouped : ∀ col, p.isGrouped col = true → ∀ v i,
    i ∈ p.groupedLookup col v ↔
      i < p.numRows ∧ ∃ c, p.getColumn col = some c ∧ HasValue c p.mem i v
  parted : ∀ col, p.isParted col = true → ∀ v i,
    ((p.partedRange col v).1 ≤ i ∧ i < (p.partedRange col v).2) ↔
      i < p.numRows ∧ ∃ c, p.getColumn col = some c ∧ HasValue c p.mem i v

structure Unattributed (p : Partition) : Prop where
  sorted : ∀ col, p.isSorted col = false
  grouped : ∀ col, p.isGrouped col = false
  parted : ∀ col, p.isParted col = false

/-! ## Admissible operations -/

/-- What an `s#` lookup needs: as long as the partition and, unless empty, ascending 64-bit
integers. -/
def SortedColumn (cs : List ColumnContents) (col : String) : Prop :=
  ∀ k, columnOf cs col = some k →
    k.rows.length = rowCount cs ∧ (k.rows = [] ∨ k.type.isWord = true ∧ k.Ascends)

/-- What `set_grouped` needs: empty, or 64-bit integers and as long as the partition. -/
def IndexableColumn (cs : List ColumnContents) (k : ColumnContents) : Prop :=
  k.rows = [] ∨ k.type.isWord = true ∧ k.rows.length = rowCount cs

/-- A change leaves the columns of `s#` in order, those of `g#` and `p#` untouched. -/
structure Keeps (p : Partition) (cs : List ColumnContents) : Prop where
  sorted : ∀ col, p.isSorted col = true → SortedColumn cs col
  indexed : ∀ col, p.isGrouped col = true ∨ p.isParted col = true →
    rowCount cs = rowCount p.contents ∧ columnOf cs col = columnOf p.contents col

def updatedContents (assignments : List UpdateAssign) (p : Partition) (rows : List Nat) :
    List ColumnContents :=
  p.columns.map fun c =>
    ⟨c.name, c.type, (range c.size).map (updatedCell assignments p rows c)⟩

def deletedContents (p : Partition) (rows : List Nat) : List ColumnContents :=
  if rows.isEmpty then p.contents
  else p.columns.map fun c =>
    ⟨c.name, c.type,
      (range (min (p.numRows - rows.length) c.size)).map (landedCell p rows c)⟩

/-- The columns of a tick have different names and its widths. -/
structure TickFits (p : Partition) (msg : TickMessage) : Prop where
  names : ((headers (tickColumns msg p.contents)).map Prod.fst).Nodup
  widths : ∀ cell ∈ msg.cells, ∀ h ∈ headers (tickColumns msg p.contents),
    h.1 = cell.1 → cell.2.1 = h.2.size

def hasTickRoom (p : Partition) (msg : TickMessage) : Bool :=
  ((p.addTickColumns msg).reserveNamed tickNames (p.addTickColumns msg).arenaUsed).isSome

/-- A column is given an attribute as the attribute needs it, and a change keeps it that way. -/
def Admissible (p : Partition) : PartitionOp Q → Prop
  | .tick msg => Unattributed p ∨ TickFits p msg ∧
      (hasTickRoom p msg = true ∧ Keeps p (pushTick p.contents msg) ∨
        (p.addTickColumns msg).refusesTick = true ∧ Keeps p (tickColumns msg p.contents))
  | .typedRow schema values =>
    if p.acceptsRow schema values then Keeps p (pushRow schema.columns values p.contents)
    else ∀ col, p.isSorted col = true → (p.getColumn col).isSome
  | .update env dict w assignments =>
    Keeps p (updatedContents assignments p (changedRows env dict w p))
  | .delete env dict w => Keeps p (deletedContents p (changedRows env dict w p))
  | .setSorted col => SortedColumn p.contents col
  | .setGrouped col => ∀ k, columnOf p.contents col = some k → IndexableColumn p.contents k
  | .setParted col => ∀ k, columnOf p.contents col = some k →
      IndexableColumn p.contents k ∧ k.Clusters

/-! ## What the operations leave -/

theorem contents_updateRows (assignments : List UpdateAssign) (p : Partition) (rows : List Nat) :
    (updateRows assignments p rows).contents = updatedContents assignments p rows := by
  refine map_congr_left fun c hc => ?_
  unfold ColumnVector.contents
  congr 1
  refine map_congr_left fun i hi => ?_
  have hi := mem_range.mp hi
  rw [← updateRows_cell assignments p rows hi, ColumnVector.cell,
    if_neg (not_or.mpr ⟨by omega, (p.fits c hc).data_ne_none hi⟩)]

theorem contents_deleteRows {p : Partition} {rows : List Nat} (h : rows.Sublist (range p.numRows)) :
    (deleteRows p rows).contents = deletedContents p rows := by
  have hcells := deleteRows_cell h
  by_cases hnil : rows.isEmpty
  · rw [deletedContents, if_pos hnil, deleteRows, if_pos hnil]
  rw [deletedContents, if_neg hnil]
  have hcols : (deleteRows p rows).columns =
      p.columns.map fun c => c.setSize (p.numRows - rows.length) := by
    rw [deleteRows, if_neg hnil]
  rw [hcols, forall₂_map_right_iff, forall₂_same] at hcells
  rw [contents, hcols, map_map]
  refine map_congr_left fun c hc => ?_
  obtain ⟨-, -, hcell⟩ := hcells c hc
  simp only [Function.comp, ColumnVector.contents, ColumnVector.setSize_name,
    ColumnVector.setSize_type, ColumnVector.setSize_size]
  congr 1
  refine map_congr_left fun j hj => ?_
  have hj := mem_range.mp hj
  have hfits := ColumnVector.setSize_fits (p.fits c hc) (p.numRows - rows.length)
  rw [← hcell j, ColumnVector.cell, if_neg (not_or.mpr ⟨?_, hfits.data_ne_none (i := j) ?_⟩)]
  · rw [ColumnVector.setSize_size]
    omega
  · rwa [ColumnVector.setSize_size]

/-- A tick that fits leaves what it says, all of it or nothing. -/
theorem contents_addTick {p : Partition} {msg : TickMessage} (h : TickFits p msg) :
    (hasTickRoom p msg → (p.addTick msg).contents = pushTick p.contents msg) ∧
    ((p.addTickColumns msg).refusesTick →
      (p.addTick msg).contents = tickColumns msg p.contents) := by
  have hcont := p.addTickColumns_contents msg
  obtain ⟨done, -, hdone, htakes, hrefuses⟩ := appendAll_contents
    (p := p.addTickColumns msg) msg.cells
    (by rw [names_eq_contents, hcont]; simpa [headers, Function.comp_def] using h.names)
    (show tickNames.Nodup by decide)
    (fun cell hcell => ⟨bits_lt msg cell hcell, by rw [hcont]; exact h.widths cell hcell⟩)
  rw [hcont] at hdone
  have haddTick : (p.addTick msg).contents = _ := hdone
  constructor
  · intro hroom
    rw [haddTick, htakes.mp hroom]
    rfl
  intro hrefused
  rw [haddTick, hrefuses.mp (by simpa [refusesTick, tickNames, TickMessage.cells] using hrefused)]
  rfl

/-! ## The invariant -/

/-- The columns are as the attributes need them, and the indexes list their values. -/
structure Indexed (p : Partition) : Prop where
  sorted : ∀ col, p.isSorted col = true → SortedColumn p.contents col
  grouped : ∀ col, p.isGrouped col = true → ∃ k, columnOf p.contents col = some k ∧
    k.type.isWord = true ∧ k.rows.length = rowCount p.contents ∧
      ∀ v i, i ∈ p.groupedLookup col v ↔ i < k.rows.length ∧ k.value i = v
  parted : ∀ col, p.isParted col = true → ∃ k, columnOf p.contents col = some k ∧
    k.type.isWord = true ∧ k.rows.length = rowCount p.contents ∧
      ∀ v i, ((p.partedRange col v).1 ≤ i ∧ i < (p.partedRange col v).2) ↔
        i < k.rows.length ∧ k.value i = v

section

variable {p p' : Partition} {col : String}

theorem Unattributed.indexed (h : Unattributed p) : Indexed p where
  sorted col hs := absurd hs (by simp [h.sorted])
  grouped col hg := absurd hg (by simp [h.grouped])
  parted col hp := absurd hp (by simp [h.parted])

theorem getColumn_of_columnOf {k : ColumnContents} (h : columnOf p.contents col = some k) :
    ∃ c, p.getColumn col = some c ∧ c.Fits ∧ c.contents p.mem = k := by
  rw [columnOf_contents, Option.map_eq_some_iff] at h
  obtain ⟨c, hc, rfl⟩ := h
  exact ⟨c, hc, p.fits c (getColumn_mem hc), rfl⟩

theorem listed_iff {k : ColumnContents} (hk : columnOf p.contents col = some k)
    (hword : k.type.isWord) (hlen : k.rows.length = rowCount p.contents) (v : Int)
    (i : Nat) :
    (i < k.rows.length ∧ k.value i = v) ↔
      i < p.numRows ∧ ∃ c, p.getColumn col = some c ∧ HasValue c p.mem i v := by
  obtain ⟨c, hc, hfits, rfl⟩ := getColumn_of_columnOf hk
  have hint : c.type.isFloat = false := ColumnType.isFloat_of_isWord hword
  rw [numRows_eq_rowCount, ← hlen, length_rows_contents]
  refine and_congr_right fun hi => ?_
  rw [value_contents hfits hi, hc]
  simp [HasValue, hint]

theorem Indexed.fresh (h : Indexed p) : Fresh p where
  sorted col hs lo hi i := by
    cases hc : p.getColumn col with
    | none => simp [sortedRange, hc]
    | some c =>
      have hfits := p.fits c (getColumn_mem hc)
      obtain ⟨hlen, hcol⟩ := h.sorted col hs _ (columnOf_of_getColumn hc)
      rw [length_rows_contents] at hlen
      rw [numRows_eq_rowCount, ← hlen]
      rcases hcol with hnil | ⟨hword, hasc⟩
      · have hsize : c.size = 0 := by rw [← length_rows_contents c p.mem, hnil]; rfl
        simp [sortedRange, hc, hsize]
      · rw [sortedRange_iff hc hword (ascending_of_ascends hfits hasc)]
        have hint : c.type.isFloat = false := ColumnType.isFloat_of_isWord hword
        simp [InValueRange, hint]
  grouped col hg v i := by
    obtain ⟨k, hk, hword, hlen, hlist⟩ := h.grouped col hg
    rw [hlist, listed_iff hk hword hlen]
  parted col hp v i := by
    obtain ⟨k, hk, hword, hlen, hlist⟩ := h.parted col hp
    rw [hlist, listed_iff hk hword hlen]

/-- The lookups of the indexes depend on the attributes only. -/
theorem lookups_of_attributes (h : p'.attributes = p.attributes) :
    p'.isSorted = p.isSorted ∧ p'.isGrouped = p.isGrouped ∧ p'.isParted = p.isParted ∧
      p'.groupedLookup = p.groupedLookup ∧ p'.partedRange = p.partedRange := by
  simp only [attributes, Prod.mk.injEq] at h
  obtain ⟨hs, hg, hp⟩ := h
  refine ⟨?_, ?_, ?_, ?_, ?_⟩
  · funext col
    rw [isSorted, isSorted, hs]
  · funext col
    rw [isGrouped, isGrouped, hg]
  · funext col
    rw [isParted, isParted, hp]
  · funext col v
    rw [groupedLookup, groupedLookup, hg]
  · funext col v
    rw [partedRange, partedRange, hp]

/-- A change that keeps the columns of the attributes keeps the invariant. -/
theorem Indexed.of_keeps (h : Indexed p) (hattr : p'.attributes = p.attributes)
    (hkeeps : Keeps p p'.contents) : Indexed p' := by
  obtain ⟨hs, hg, hp, hlookup, hrange⟩ := lookups_of_attributes hattr
  refine ⟨fun col hcol => ?_, fun col hcol => ?_, fun col hcol => ?_⟩
  · rw [hs] at hcol
    exact hkeeps.sorted col hcol
  · rw [hg] at hcol
    obtain ⟨hcount, hsame⟩ := hkeeps.indexed col (.inl hcol)
    rw [hcount, hsame, hlookup]
    exact h.grouped col hcol
  rw [hp] at hcol
  obtain ⟨hcount, hsame⟩ := hkeeps.indexed col (.inr hcol)
  rw [hcount, hsame, hrange]
  exact h.parted col hcol

theorem Unattributed.of_attributes (h : Unattributed p) (hattr : p'.attributes = p.attributes) :
    Unattributed p' := by
  obtain ⟨hs, hg, hp, -⟩ := lookups_of_attributes hattr
  exact ⟨fun col => hs ▸ h.sorted col, fun col => hg ▸ h.grouped col, fun col => hp ▸ h.parted col⟩

theorem keeps_of_rowsKept (h : Indexed p) {cs : List ColumnContents}
    (hkept : RowsKept p.contents cs)
    (hstored : ∀ col, p.isSorted col → (p.getColumn col).isSome) : Keeps p cs := by
  have hcount := hkept.rowCount_eq
  obtain ⟨extra, rfl, -⟩ := hkept
  have hsame : ∀ {col k}, columnOf p.contents col = some k →
      columnOf (p.contents ++ extra) col = some k := by
    intro col k hk
    unfold columnOf at hk ⊢
    rw [find?_append, hk]
    rfl
  refine ⟨fun col hs => ?_, fun col hidx => ⟨hcount, ?_⟩⟩
  · obtain ⟨c, hc⟩ := Option.isSome_iff_exists.mp (hstored col hs)
    have hk := columnOf_of_getColumn hc
    intro k hk'
    rw [hsame hk] at hk'
    cases hk'
    rw [hcount]
    exact h.sorted col hs _ hk
  · obtain ⟨k, hk⟩ : ∃ k, columnOf p.contents col = some k := by
      rcases hidx with hg | hp
      · exact (h.grouped col hg).imp fun _ h => h.1
      · exact (h.parted col hp).imp fun _ h => h.1
    rw [hk, hsame hk]

/-! ## Setting attributes -/

theorem Indexed.setSorted (h : Indexed p) (hcol : SortedColumn p.contents col) :
    Indexed (p.setSorted col) where
  sorted name hs := by
    rw [isSorted_setSorted, Bool.or_eq_true, decide_eq_true_eq] at hs
    rcases hs with rfl | hs
    · exact hcol
    · exact h.sorted name hs
  grouped := h.grouped
  parted := h.parted

theorem indexable_of_rows {c : ColumnVector} (hc : p.getColumn col = some c) (hsize : c.size ≠ 0)
    (h : IndexableColumn p.contents (c.contents p.mem)) :
    columnOf p.contents col = some (c.contents p.mem) ∧ c.type.isWord ∧
      (c.contents p.mem).rows.length = rowCount p.contents := by
  refine ⟨columnOf_of_getColumn hc, ?_⟩
  rcases h with hnil | h
  · rw [← length_rows_contents c p.mem, hnil] at hsize
    exact absurd rfl hsize
  · exact h

theorem Indexed.setGrouped (h : Indexed p)
    (hcol : ∀ k, columnOf p.contents col = some k → IndexableColumn p.contents k) :
    Indexed (p.setGrouped col) := by
  unfold Partition.setGrouped
  split
  · exact h
  rename_i c hc
  split
  · exact h
  rename_i hsize
  have hfits := p.fits c (getColumn_mem hc)
  obtain ⟨hk, hword, hlen⟩ := indexable_of_rows hc hsize (hcol _ (columnOf_of_getColumn hc))
  refine ⟨h.sorted, fun name hname => ?_, h.parted⟩
  by_cases hn : name = col
  · subst hn
    refine ⟨_, hk, hword, hlen, fun v i => ?_⟩
    simp only [groupedLookup, AList.lookup_insert]
    rw [mem_rows_buildGrouped hfits hword, length_rows_contents]
    exact and_congr_right fun hi => by rw [value_contents hfits hi]
  · simp only [groupedLookup, isGrouped, AList.lookup_insert_ne hn] at hname ⊢
    exact h.grouped name hname

theorem Indexed.setParted (h : Indexed p)
    (hcol : ∀ k, columnOf p.contents col = some k → IndexableColumn p.contents k ∧ k.Clusters) :
    Indexed (p.setParted col) := by
  unfold Partition.setParted
  split
  · exact h
  rename_i c hc
  split
  · exact h
  rename_i hsize
  have hfits := p.fits c (getColumn_mem hc)
  have hwhole := hcol _ (columnOf_of_getColumn hc)
  obtain ⟨hk, hword, hlen⟩ := indexable_of_rows hc hsize hwhole.1
  refine ⟨h.sorted, h.grouped, fun name hname => ?_⟩
  by_cases hn : name = col
  · subst hn
    refine ⟨_, hk, hword, hlen, fun v i => ?_⟩
    simp only [partedRange, AList.lookup_insert]
    have hrange := ranges_buildParted (m := p.mem) (i := i) hfits hword
      (pos_of_ne_zero hsize) (clustered_of_clusters hfits hwhole.2) v
    rw [length_rows_contents]
    refine hrange.trans (and_congr_right fun hi => ?_)
    rw [value_contents hfits hi]
  · simp only [partedRange, isParted, AList.lookup_insert_ne hn] at hname ⊢
    exact h.parted name hname

/-! ## Runs -/

/-- An admissible operation keeps the invariant. -/
theorem Indexed.apply (h : Indexed p) (op : PartitionOp Q) (hop : Admissible p op) :
    Indexed (op.apply p) := by
  cases op with
  | tick msg =>
    have hattr := congrArg Prod.snd (p.addTick_fixed msg)
    rcases hop with hnone | ⟨hfits, ⟨hroom, hkeeps⟩ | ⟨hrefused, hkeeps⟩⟩
    · exact (hnone.of_attributes hattr).indexed
    · rw [← (contents_addTick hfits).1 hroom] at hkeeps
      exact h.of_keeps hattr hkeeps
    · rw [← (contents_addTick hfits).2 hrefused] at hkeeps
      exact h.of_keeps hattr hkeeps
  | typedRow schema values =>
    obtain ⟨-, haccepted, hrefused⟩ := p.addTypedRow_spec schema values
    refine h.of_keeps (congrArg Prod.snd (p.addTypedRow_fixed schema values)) ?_
    cases hacc : p.acceptsRow schema values with
    | true =>
      rw [Admissible, if_pos hacc, ← haccepted hacc] at hop
      exact hop
    | false =>
      rw [Admissible, if_neg (by simp [hacc])] at hop
      exact keeps_of_rowsKept h (hrefused hacc).1 hop
  | update env dict w assignments =>
    rw [Admissible, ← contents_updateRows] at hop
    exact h.of_keeps rfl hop
  | delete env dict w =>
    rw [Admissible, ← contents_deleteRows (changedRows_sublist env dict w p)] at hop
    refine h.of_keeps ?_ hop
    simp only [PartitionOp.apply, deleteRows]
    split <;> rfl
  | setSorted col => exact h.setSorted hop
  | setGrouped col => exact h.setGrouped hop
  | setParted col => exact h.setParted hop

/-- After every run of admissible operations, the lookups of the attributes answer for the rows
there are. -/
theorem attributes_fresh (p : Partition) (hp : Unattributed p) (ops : List (PartitionOp Q))
    (hops : partitionMachine.Admits Admissible p ops) :
    Fresh (partitionMachine.run p ops) :=
  (partitionMachine.invariant_admits (fun _ op h hop => h.apply op hop) hp.indexed hops).fresh

end

def priceTick (price : Int) : TickMessage := { recvTs := 0, symbolId := 1, price, volume := 1 }

/-- Two ticks of ascending prices, and an operation between them. -/
def tickAround (op : PartitionOp Unit) : List (PartitionOp Unit) :=
  [.tick (priceTick 1), op, .tick (priceTick 2)]

/-- A partition of ticks with `g#` on the price, and one more tick. -/
def tickAfterGrouped : List (PartitionOp Unit) := tickAround (.setGrouped "price")

theorem sortedColumn_of_rows {cs : List ColumnContents} {col : String} (rows : List Nat)
    (h : columnOf cs col = some ⟨col, .int64, rows⟩) (hlen : rows.length = rowCount cs)
    (hasc : ∀ j < rows.length, ∀ i ≤ j, ColumnType.int64.toI64 (rows.getD i 0) ≤
      ColumnType.int64.toI64 (rows.getD j 0)) : SortedColumn cs col := by
  intro k hk
  obtain rfl := Option.some.inj (h.symm.trans hk)
  exact ⟨hlen, .inr ⟨rfl, fun i j hij hj => hasc j hj i hij⟩⟩

/-- The second tick keeps `s#` of the price. -/
theorem attributes_fresh_second_tick :
    let p := partitionMachine.run (.new 1000000 ⟨0, 1, 0⟩) (tickAround (.setSorted "price"))
    p.numRows = 2 ∧ p.isSorted "price" = true ∧ Fresh p := by
  have hnew : Unattributed (.new 1000000 ⟨0, 1, 0⟩) := ⟨fun _ => rfl, fun _ => rfl, fun _ => rfl⟩
  refine ⟨by decide +kernel, by decide +kernel, attributes_fresh _ hnew _ ⟨.inl hnew, ?_,
    .inr ⟨⟨by decide +kernel, by decide +kernel⟩, .inl ⟨by decide +kernel, fun col hcol => ?_,
      fun col hcol => ?_⟩⟩, trivial⟩⟩
  · exact sortedColumn_of_rows [1] (by decide +kernel) (by decide +kernel) (by decide +kernel)
  · obtain rfl : col = "price" := mem_singleton.mp (of_decide_eq_true hcol)
    exact sortedColumn_of_rows [1, 2] (by decide +kernel) (by decide +kernel) (by decide +kernel)
  · rcases hcol with h | h <;> cases h

/-- The row appended after `set_grouped` is missing from its lookup. -/
theorem grouped_misses_appended_row : Unattributed (.new 1000000 ⟨0, 1, 0⟩) ∧
    (partitionMachine.run (.new 1000000 ⟨0, 1, 0⟩) tickAfterGrouped).isGrouped "price" = true ∧
    (partitionMachine.run (.new 1000000 ⟨0, 1, 0⟩) tickAfterGrouped).numRows = 2 ∧
    ((partitionMachine.run (.new 1000000 ⟨0, 1, 0⟩) tickAfterGrouped).getColumn "price").map
      (fun c => c.readI64 (partitionMachine.run (.new 1000000 ⟨0, 1, 0⟩) tickAfterGrouped).mem 1) =
      some 2 ∧
    (partitionMachine.run (.new 1000000 ⟨0, 1, 0⟩) tickAfterGrouped).groupedLookup "price" 2 = [] :=
  ⟨⟨fun _ => rfl, fun _ => rfl, fun _ => rfl⟩, by decide +kernel, by decide +kernel,
    by decide +kernel, by decide +kernel⟩

end Zepto.Sql
