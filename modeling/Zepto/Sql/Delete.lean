import Zepto.Lib.Compaction
import Zepto.Sql.Change
import Zepto.Sql.PlainSelect
import Zepto.Sql.SymbolForm

/-!
# DELETE

`exec_delete` compacts every column of a partition in place: it moves the words of the kept rows
to the front, eight bytes per row whatever the width of the column, and then shrinks the columns.
`landsFrom` follows a byte back to where it was. The kept rows stay whole in columns of eight bytes,
and in any column when only the last rows go (`Movable`); with a condition that is read as it is
meant, a `DELETE` then removes exactly its rows.
-/

namespace Zepto.Sql

open List Zepto.Lib Zepto.Storage ColumnVector

variable {Q : Type}

structure DeleteStmt (Q : Type) where
  tableName : String
  whereClause : Option (Expr Q) := none

/-! ## The executor -/

/-- The compaction loop: word `read` moves to `write` unless its row is deleted. -/
def compactLoop (c : ColumnVector) (del : Nat → Bool) : List Nat → Nat → Mem → Mem
  | [], _, m => m
  | read :: rest, write, m =>
    if del read then compactLoop c del rest write m
    else compactLoop c del rest (write + 1)
      (store m (c.addr + 8 * write) 8 (load m (c.addr + 8 * read) 8))

def compactColumns (cols : List ColumnVector) (del : Nat → Bool) (nrows : Nat) (m : Mem) : Mem :=
  cols.foldl (fun m c => compactLoop c del (range nrows) 0 m) m

/-- Delete rows of a partition; without a row nothing is touched. -/
def deleteRows (p : Partition) (rows : List Nat) : Partition :=
  if rows.isEmpty then p
  else
    { p with
      columns := p.columns.map fun c => c.setSize (p.numRows - rows.length)
      mem := compactColumns p.columns (fun i => i ∈ rows) p.numRows p.mem
      fits := by
        intro c hc
        obtain ⟨c', hc', rfl⟩ := mem_map.mp hc
        exact setSize_fits (p.fits c' hc') _
      apart := by
        rw [pairwise_map]
        refine p.apart.imp fun {a b} h x => ?_
        rw [setSize_owns, setSize_owns]
        exact h x
      handedOut := by
        intro c hc
        obtain ⟨c', hc', rfl⟩ := mem_map.mp hc
        rw [setSize_stop]
        exact p.handedOut c' hc' }

def deletion : RowChange where
  apply := deleteRows
  key_apply p rows := by
    unfold deleteRows
    split <;> rfl
  apply_nil _ := rfl

def execDelete (env : Env) (db : Database) (stmt : DeleteStmt Q) :
    Except String QueryResult × Database :=
  changeTable env db stmt.tableName stmt.whereClause deletion "deleted"

/-- `p'` has the rows `kept` of `p`, in this order, in every column. -/
structure KeepsRows (p p' : Partition) (kept : List Nat) : Prop where
  key : p'.key = p.key
  numRows : p'.numRows = kept.length
  columns : Forall₂ (fun c c' : ColumnVector => c'.name = c.name ∧ c'.type = c.type ∧
    ∀ j < kept.length, c'.cell p'.mem j = c.cell p.mem (kept.getD j 0)) p.columns p'.columns

/-- The outcome of a `DELETE` that removes exactly the rows of its condition. -/
structure DeletesExactly (rd : Reading Q) (db : Database) (stmt : DeleteStmt Q)
    (out : Except String QueryResult × Database) : Prop where
  partitions : Forall₂ (fun p p' => if db.inTable stmt.tableName p then
      KeepsRows p p' (unmatchedRows rd stmt.whereClause p) else p' = p)
    db.partitions out.2.partitions
  registry : out.2.registry = db.registry
  symbolDict : out.2.symbolDict = db.symbolDict
  views : out.2.views = db.views
  count : out.1 = .ok (countResult "deleted" (db.partitions.map fun p =>
    if db.inTable stmt.tableName p then (matchingRows rd stmt.whereClause p).length else 0).sum)

/-! ## The bytes after a compaction -/

def keptRows (p : Partition) (rows : List Nat) : List Nat :=
  (range p.numRows).filter fun i => i ∉ rows

/-- Where the byte at `x` comes from after all columns were compacted. -/
def landsFrom (cols : List ColumnVector) (kept : List Nat) (x : Nat) : Nat :=
  match cols with
  | [] => x
  | c :: cols => compactSource c.addr 8 kept (landsFrom cols kept x)

/-- The cell of a column at row `j` after the deletion of `rows`. -/
def landedCell (p : Partition) (rows : List Nat) (c : ColumnVector) (j : Nat) : Nat :=
  if rows.isEmpty then c.cell p.mem j
  else if min (keptRows p rows).length c.size ≤ j ∨ c.data = none then 0
  else load (fun x => p.mem (landsFrom p.columns (keptRows p rows) x))
    (c.addr + c.type.size * j) c.type.size

theorem compactLoop_eq_compact (c : ColumnVector) (del : Nat → Bool) (is : List Nat) (w : Nat)
    (m : Mem) :
    compactLoop c del is w m = compact c.addr 8 (is.filter fun i => !del i) w m := by
  induction is generalizing w m with
  | nil => rfl
  | cons i is ih =>
    unfold compactLoop
    split_ifs with h
    · rw [ih, filter_cons_of_neg (by simp [h])]
    · rw [ih, filter_cons_of_pos (by simp [h])]
      rfl

theorem compactColumns_eq (cols : List ColumnVector) (rows : List Nat) (n : Nat) (m : Mem) :
    compactColumns cols (fun i => i ∈ rows) n m =
      fun x => m (landsFrom cols ((range n).filter fun i => i ∉ rows) x) := by
  induction cols generalizing m with
  | nil => rfl
  | cons c cols ih =>
    have hloop : compactLoop c (fun i => i ∈ rows) (range n) 0 m =
        fun x => m (compactSource c.addr 8 ((range n).filter fun i => i ∉ rows) x) := by
      rw [compactLoop_eq_compact, compact_eq (by decide) m (pairwise_lt_range.filter _)
        fun _ _ => Nat.zero_le _]
      simp only [decide_not]
      rfl
    unfold compactColumns at ih ⊢
    rw [foldl_cons, hloop, ih]
    rfl

theorem keptRows_length {p : Partition} {rows : List Nat} (h : rows.Sublist (range p.numRows)) :
    (keptRows p rows).length = p.numRows - rows.length := by
  have hsplit := length_eq_length_filter_add (l := range p.numRows) (fun i => decide (i ∈ rows))
  have hrows : ((range p.numRows).filter fun i => decide (i ∈ rows)).Perm rows := by
    rw [perm_ext_iff_of_nodup (nodup_range.filter _) (h.nodup nodup_range)]
    intro i
    rw [mem_filter, decide_eq_true_eq]
    exact ⟨fun hi => hi.2, fun hi => ⟨h.subset hi, hi⟩⟩
  rw [length_range, hrows.length_eq] at hsplit
  unfold keptRows
  simp only [decide_not]
  omega

section

variable {p : Partition} {rows : List Nat}

theorem deleteRows_numRows (p : Partition) (rows : List Nat) :
    (deleteRows p rows).numRows = p.numRows - rows.length := by
  unfold deleteRows
  split
  next hnil =>
    simp [isEmpty_iff.mp hnil]
  simp only [Partition.numRows]
  cases p.columns with
  | nil => simp
  | cons c cols => simp only [map_cons, setSize_size]; omega

theorem deleteRows_cell (h : rows.Sublist (range p.numRows)) :
    Forall₂ (fun c c' : ColumnVector => c'.name = c.name ∧ c'.type = c.type ∧
      ∀ j, c'.cell (deleteRows p rows).mem j = landedCell p rows c j)
      p.columns (deleteRows p rows).columns := by
  by_cases hnil : rows.isEmpty
  · simp [deleteRows, landedCell, hnil]
  simp only [deleteRows, landedCell, hnil, Bool.false_eq_true, if_false,
    forall₂_map_right_iff, forall₂_same]
  refine fun c _ => ⟨c.setSize_name _, c.setSize_type _, fun j => ?_⟩
  rw [compactColumns_eq, ← keptRows_length h]
  simp only [cell, bits, setSize_size, setSize_data, setSize_addr, setSize_type]
  rfl

end

/-! ## Bytes that land in place -/

/-- A compaction does not reach the bytes of another column. -/
theorem compactSource_of_owns {c d : ColumnVector} {kept : List Nat} {x : Nat} (hapart : d.Apart c)
    (hwide : d.type.size = 8) (hlen : kept.length ≤ d.capacity) (hx : c.Owns x) :
    compactSource d.addr 8 kept x = x := by
  refine slotSource_outside fun hin => hapart x ⟨⟨hin.1, ?_⟩, hx⟩
  rw [stop, hwide]
  omega

theorem compactSource_range (base n x : Nat) : compactSource base 8 (range n) x = x := by
  unfold compactSource slotSource
  split
  next hin =>
    rw [length_range] at hin
    rw [getD_eq_getElem _ _ (by rw [length_range]; omega), getElem_range]
    omega
  · rfl

section

variable {cols : List ColumnVector} {kept : List Nat} {c : ColumnVector}

theorem landsFrom_range (cols : List ColumnVector) (n x : Nat) :
    landsFrom cols (range n) x = x := by
  induction cols with
  | nil => rfl
  | cons d cols ih => rw [landsFrom, ih, compactSource_range]

variable (hwide : ∀ d ∈ cols, d.type.size = 8 ∧ kept.length ≤ d.capacity)

include hwide

theorem landsFrom_of_owns {x : Nat} (hapart : ∀ d ∈ cols, c.Apart d) (hx : c.Owns x) :
    landsFrom cols kept x = x := by
  induction cols with
  | nil => rfl
  | cons d cols ih =>
    rw [forall_mem_cons] at hwide hapart
    rw [landsFrom, ih hwide.2 hapart.2]
    exact compactSource_of_owns (fun y hy => hapart.1 y hy.symm) hwide.1.1 hwide.1.2 hx

/-- Word `j` of a column is, byte by byte, the word of the row kept there. -/
theorem landsFrom_word (hapart : cols.Pairwise Apart) (hc : c ∈ cols)
    (hkept : ∀ i ∈ kept, i < c.capacity) {j k : Nat} (hj : j < kept.length) (hk : k < 8) :
    landsFrom cols kept (c.addr + 8 * j + k) = c.addr + 8 * kept.getD j 0 + k := by
  have howns : ∀ i < c.capacity, c.Owns (c.addr + 8 * i + k) := by
    intro i hi
    refine ⟨by omega, ?_⟩
    rw [stop, (hwide c hc).1]
    omega
  have hsource : kept.getD j 0 < c.capacity := by
    rw [getD_eq_getElem _ _ hj]
    exact hkept _ (getElem_mem hj)
  induction cols with
  | nil => cases hc
  | cons d cols ih =>
    obtain ⟨hfirst, hrest⟩ := pairwise_cons.mp hapart
    have hwide' := fun d hd => hwide d (mem_cons_of_mem _ hd)
    rcases mem_cons.mp hc with rfl | hmem
    · have hlen := (hwide c hc).2
      rw [landsFrom, landsFrom_of_owns hwide' hfirst (howns j (by omega)),
        compactSource, slotSource,
        if_pos (by omega)]
      have hdiv : (c.addr + 8 * j + k - c.addr) / 8 - 0 = j := by omega
      rw [hdiv]
      omega
    · rw [landsFrom, ih hwide' hrest hmem]
      have hd := hwide d mem_cons_self
      exact compactSource_of_owns (hfirst c hmem) hd.1 hd.2 (howns _ hsource)

end

/-! ## When exactly the rows of the condition are removed -/

/-- The columns have eight bytes per row and equal lengths, or the rows of the condition are the
last ones. -/
def Movable (rd : Reading Q) (w : Option (Expr Q)) (p : Partition) : Prop :=
  (∀ c ∈ p.columns, c.type.size = 8 ∧ c.size = p.numRows) ∨
    ∀ i j, i < j → j < p.numRows → whereMeans rd p w i = true → whereMeans rd p w j = true

theorem filter_range_of_downward {n : Nat} {q : Nat → Bool}
    (h : ∀ i j, i < j → j < n → q j = true → q i = true) :
    (range n).filter q = range ((range n).filter q).length := by
  induction n with
  | zero => rfl
  | succ n ih =>
    rw [range_succ, filter_append]
    by_cases hn : q n
    · have hall : (range n).filter q = range n :=
        filter_eq_self.mpr fun i hi => h i n (mem_range.mp hi) (by omega) hn
      simp [hall, hn, range_succ]
    · simpa [hn] using ih fun i j hij hj => h i j hij (by omega)

section

variable {rd : Reading Q} {w : Option (Expr Q)} {p : Partition}

theorem keptRows_matchingRows : keptRows p (matchingRows rd w p) = unmatchedRows rd w p := by
  refine filter_congr fun i hi => ?_
  simp [matchingRows, mem_range.mp hi]

section

variable {c : ColumnVector} {j : Nat}

theorem landedCell_of_first {n : Nat} (h : unmatchedRows rd w p = range n) (hj : j < n) :
    landedCell p (matchingRows rd w p) c j = c.cell p.mem j := by
  rw [landedCell, keptRows_matchingRows, h]
  simp only [landsFrom_range, length_range, min_le_iff, hj.not_ge, false_or]
  split <;> rfl

/-- Where all columns are wide and rows go, a kept cell takes the place of its row. -/
theorem landedCell_of_wide (hwide : ∀ c ∈ p.columns, c.type.size = 8 ∧ c.size = p.numRows)
    (hsome : matchingRows rd w p ≠ []) (hc : c ∈ p.columns)
    (hj : j < (unmatchedRows rd w p).length) :
    landedCell p (matchingRows rd w p) c j = c.cell p.mem ((unmatchedRows rd w p).getD j 0) := by
  have hsub : (unmatchedRows rd w p).Sublist (range p.numRows) := filter_sublist
  have hlen : (unmatchedRows rd w p).length ≤ p.numRows := by
    simpa using hsub.length_le
  have hroom : ∀ d ∈ p.columns, d.type.size = 8 ∧ (unmatchedRows rd w p).length ≤ d.capacity := by
    intro d hd
    have := (p.fits d hd).size_le
    have := (hwide d hd).2
    exact ⟨(hwide d hd).1, by omega⟩
  obtain ⟨hsize, hrows⟩ := hwide c hc
  have hcap := (p.fits c hc).size_le
  have hkept : ∀ i ∈ unmatchedRows rd w p, i < c.size := by
    intro i hi
    rw [hrows]
    exact mem_range.mp (hsub.subset hi)
  have hrow : (unmatchedRows rd w p).getD j 0 < c.size := by
    rw [getD_eq_getElem _ _ hj]
    exact hkept _ (getElem_mem hj)
  have hdata : c.data ≠ none := (p.fits c hc).data_ne_none hrow
  rw [landedCell, keptRows_matchingRows, if_neg (by simpa using hsome),
    if_neg (by simp only [hdata, or_false]; omega), cell,
    if_neg (by simp only [hdata, or_false]; omega), bits, hsize]
  refine load_shift fun k hk => ?_
  rw [landsFrom_word hroom p.apart hc (fun i hi => (hkept i hi).trans_le hcap) hj hk]

theorem landedCell_matchingRows (h : Movable rd w p) (hc : c ∈ p.columns)
    (hj : j < (unmatchedRows rd w p).length) :
    landedCell p (matchingRows rd w p) c j = c.cell p.mem ((unmatchedRows rd w p).getD j 0) := by
  by_cases hfirst : ∃ n, unmatchedRows rd w p = range n
  · obtain ⟨n, hn⟩ := hfirst
    rw [hn, length_range] at hj
    rw [landedCell_of_first hn hj, hn, getD_eq_getElem _ _ (by simpa using hj), getElem_range]
  refine landedCell_of_wide (h.resolve_right fun hlast => hfirst ?_) (fun hnil => hfirst ?_) hc hj
  · refine ⟨_, filter_range_of_downward fun i j hij hj hq => ?_⟩
    rw [Bool.not_eq_true'] at hq ⊢
    exact Bool.eq_false_iff.mpr fun hi => Bool.false_ne_true (hq.symm.trans (hlast i j hij hj hi))
  · refine ⟨p.numRows, ?_⟩
    rw [← keptRows_matchingRows, hnil, keptRows]
    simp

end

/-- The rows that are left are those not matched, with all their cells. -/
theorem keepsRows_deleteRows (h : Movable rd w p) :
    KeepsRows p (deleteRows p (matchingRows rd w p)) (unmatchedRows rd w p) := by
  have hlen := matchingRows_add_unmatchedRows rd w p
  refine ⟨deletion.key_apply p _, by rw [deleteRows_numRows]; omega, ?_⟩
  have hcell := deleteRows_cell (show (matchingRows rd w p).Sublist _ from filter_sublist)
  rw [forall₂_iff_get] at hcell ⊢
  refine ⟨hcell.1, fun k hk hk' => ?_⟩
  obtain ⟨hname, htype, hcells⟩ := hcell.2 k hk hk'
  exact ⟨hname, htype, fun j hj =>
    (hcells j).trans (landedCell_matchingRows h (get_mem _ _) hj)⟩

end

/-- `DELETE FROM trades WHERE symbol = 1 AND price = 7`. -/
def deleteSeven : DeleteStmt (Query 0) := { tableName := "trades", whereClause := some pricedSeven }

/-- `DELETE FROM trades WHERE symbol = 'XYZ'`. -/
def deleteUnknown : DeleteStmt (Query 0) where
  tableName := "trades"
  whereClause := some (.compare { column := "symbol", valueStr := "XYZ", isString := true })

end Zepto.Sql
