import Zepto.Sql.Change
import Zepto.Sql.PlainSelect
import Zepto.Sql.SymbolForm

/-!
# UPDATE

`exec_update` writes every assigned value as a word of eight bytes at eight times the row number,
whatever the width of the column. `updatedCell` is the cell that results, as a function of the
partition before. Where the assigned columns hold words (`Assignable`) it is the expected one; with
a condition that is read as it is meant, an `UPDATE` then changes exactly the cells it should.
-/

namespace Zepto.Sql

open Zepto.Lib Zepto.Storage List

variable {Q : Type}

structure UpdateAssign where
  column : String
  value : Int
  deriving DecidableEq

structure UpdateStmt (Q : Type) where
  tableName : String
  assignments : List UpdateAssign
  whereClause : Option (Expr Q) := none

def writeRows (c : ColumnVector) (v : Int) (rows : List Nat) (m : Mem) : Mem :=
  rows.foldl (fun m i => if i < c.size then store m (c.addr + 8 * i) 8 (unsigned 64 v) else m) m

/-- One assignment; a column that is not there is skipped. -/
def assignRows (p : Partition) (rows : List Nat) (m : Mem) (a : UpdateAssign) : Mem :=
  match p.getColumn a.column with
  | none => m
  | some c => writeRows c a.value rows m

def updateRows (assignments : List UpdateAssign) (p : Partition) (rows : List Nat) : Partition :=
  { p with mem := assignments.foldl (assignRows p rows) p.mem }

theorem assignRows_nil (p : Partition) (m : Mem) (a : UpdateAssign) : assignRows p [] m a = m := by
  unfold assignRows
  split <;> rfl

def updating (assignments : List UpdateAssign) : RowChange where
  apply := updateRows assignments
  key_apply _ _ := rfl
  apply_nil p := by
    have hmem : assignments.foldl (assignRows p []) p.mem = p.mem := by
      induction assignments with
      | nil => rfl
      | cons a as ih => rw [foldl_cons, assignRows_nil, ih]
    rw [updateRows, hmem]

def execUpdate (env : Env) (db : Database) (stmt : UpdateStmt Q) :
    Except String QueryResult × Database :=
  changeTable env db stmt.tableName stmt.whereClause (updating stmt.assignments) "updated"

/-- The value of the last assignment that names the column. -/
def assignedValue (assignments : List UpdateAssign) (c : ColumnVector) : Option Int :=
  (assignments.reverse.find? fun a => a.column = c.name).map UpdateAssign.value

/-- The cell an `UPDATE` of the given rows should leave. -/
def expectedCell (assignments : List UpdateAssign) (rows : List Nat) (m : Mem) (c : ColumnVector)
    (i : Nat) : Nat :=
  match assignedValue assignments c with
  | some v => if i ∈ rows then c.type.ofInt v else c.cell m i
  | none => c.cell m i

/-- The cells of `p'` are those of `p` but for the assigned ones. -/
structure UpdatesCells (assignments : List UpdateAssign) (rows : List Nat) (p p' : Partition) :
    Prop where
  key : p'.key = p.key
  columns : p'.columns = p.columns
  cells : ∀ c ∈ p.columns, ∀ i < c.size,
    c.cell p'.mem i = expectedCell assignments rows p.mem c i

/-- The outcome of an `UPDATE` that changes exactly the cells it should. -/
structure UpdatesExactly (rd : Reading Q) (db : Database) (stmt : UpdateStmt Q)
    (out : Except String QueryResult × Database) : Prop where
  completes : ∃ r, out.1 = .ok r
  partitions : Forall₂ (fun p p' => if db.inTable stmt.tableName p then
      UpdatesCells stmt.assignments (matchingRows rd stmt.whereClause p) p p' else p' = p)
    db.partitions out.2.partitions
  registry : out.2.registry = db.registry
  symbolDict : out.2.symbolDict = db.symbolDict
  views : out.2.views = db.views

/-! ## The bytes after the assignments -/

/-- The byte an assignment writes at an address, if it writes one. -/
def writtenByte (p : Partition) (rows : List Nat) (x : Nat) (a : UpdateAssign) :
    Option (BitVec 8) :=
  match p.getColumn a.column with
  | none => none
  | some c =>
    if c.addr ≤ x ∧ (x - c.addr) / 8 ∈ rows ∧ (x - c.addr) / 8 < c.size then
      some (.ofNat 8 (unsigned 64 a.value / 256 ^ ((x - c.addr) % 8)))
    else none

/-- The byte at an address after the assignments. -/
def byteAfter (assignments : List UpdateAssign) (p : Partition) (rows : List Nat) (x : Nat) :
    BitVec 8 :=
  assignments.foldl (fun b a => (writtenByte p rows x a).getD b) (p.mem x)

/-- The cell of a column after the assignments to the given rows. -/
def updatedCell (assignments : List UpdateAssign) (p : Partition) (rows : List Nat)
    (c : ColumnVector) (i : Nat) : Nat :=
  if c.data = none then 0
  else load (byteAfter assignments p rows) (c.addr + c.type.size * i) c.type.size

theorem store_word_apply (m : Mem) (base i v x : Nat) : store m (base + 8 * i) 8 v x =
      if base ≤ x ∧ (x - base) / 8 = i then .ofNat 8 (v / 256 ^ ((x - base) % 8))
      else m x := by
  unfold store
  by_cases h : base + 8 * i ≤ x ∧ x < base + 8 * i + 8
  · have hsub : x - (base + 8 * i) = (x - base) % 8 := by omega
    rw [if_pos h, if_pos (by omega), hsub]
  · rw [if_neg h, if_neg (by omega)]

theorem writeRows_apply (c : ColumnVector) (v : Int) (rows : List Nat) (m : Mem) (x : Nat) :
    writeRows c v rows m x =
      if c.addr ≤ x ∧ (x - c.addr) / 8 ∈ rows ∧ (x - c.addr) / 8 < c.size then
        .ofNat 8 (unsigned 64 v / 256 ^ ((x - c.addr) % 8))
      else m x := by
  induction rows generalizing m with
  | nil => simp [writeRows]
  | cons i rows ih =>
    unfold writeRows at ih ⊢
    rw [foldl_cons, ih]
    by_cases hrest : c.addr ≤ x ∧ (x - c.addr) / 8 ∈ rows ∧ (x - c.addr) / 8 < c.size
    · rw [if_pos hrest, if_pos ⟨hrest.1, mem_cons_of_mem _ hrest.2.1, hrest.2.2⟩]
    rw [if_neg hrest]
    -- Only the store to word `i` can have reached the byte.
    by_cases hi : c.addr ≤ x ∧ (x - c.addr) / 8 = i ∧ i < c.size
    · obtain ⟨hx, rfl, hsize⟩ := hi
      rw [if_pos hsize, store_word_apply, if_pos ⟨hx, rfl⟩, if_pos ⟨hx, mem_cons_self, hsize⟩]
    have hout : ¬(c.addr ≤ x ∧ (x - c.addr) / 8 ∈ i :: rows ∧ (x - c.addr) / 8 < c.size) := by
      rintro ⟨hx, hmem, hsize⟩
      rcases mem_cons.mp hmem with heq | hmem
      · exact hi ⟨hx, heq, heq ▸ hsize⟩
      · exact hrest ⟨hx, hmem, hsize⟩
    split
    next hsize =>
      rw [store_word_apply, if_neg fun h => hi ⟨h.1, h.2, hsize⟩]
    · rfl

theorem assignRows_apply (p : Partition) (rows : List Nat) (m : Mem) (a : UpdateAssign)
    (x : Nat) : assignRows p rows m a x = (writtenByte p rows x a).getD (m x) := by
  unfold assignRows writtenByte
  cases p.getColumn a.column with
  | none => rfl
  | some c =>
    simp only [writeRows_apply]
    split <;> rfl

/-- The memory after all assignments, byte by byte. -/
theorem updateRows_mem (assignments : List UpdateAssign) (p : Partition) (rows : List Nat) :
    (updateRows assignments p rows).mem = byteAfter assignments p rows := by
  funext x
  unfold updateRows byteAfter
  generalize p.mem = m
  induction assignments generalizing m with
  | nil => rfl
  | cons a as ih =>
    rw [foldl_cons, ih, foldl_cons, assignRows_apply]

theorem updateRows_cell (assignments : List UpdateAssign) (p : Partition) (rows : List Nat)
    {c : ColumnVector} {i : Nat} (hi : i < c.size) :
    c.cell (updateRows assignments p rows).mem i = updatedCell assignments p rows c i := by
  rw [updateRows_mem, ColumnVector.cell, updatedCell, ColumnVector.bits]
  by_cases hdata : c.data = none
  · rw [if_pos (.inr hdata), if_pos hdata]
  · rw [if_neg (by simp only [hdata, or_false]; omega), if_neg hdata]

/-! ## When exactly the right cells change -/

/-- A column with the name of the assignment is the one written, and the word written is the value
in its type. -/
def FillsCells (p : Partition) (a : UpdateAssign) : Prop :=
  ∀ c ∈ p.columns, c.name = a.column →
    p.getColumn a.column = some c ∧ c.type.size = 8 ∧ c.type.ofInt a.value = unsigned 64 a.value

def Assignable (assignments : List UpdateAssign) (p : Partition) (rows : List Nat) : Prop :=
  rows = [] ∨ ∀ a ∈ assignments, FillsCells p a

theorem assignedValue_append (as : List UpdateAssign) (a : UpdateAssign) (c : ColumnVector) :
    assignedValue (as ++ [a]) c =
      if c.name = a.column then some a.value else assignedValue as c := by
  simp only [assignedValue, reverse_append, reverse_singleton, singleton_append, find?_cons]
  by_cases hname : a.column = c.name
  · simp [hname]
  · simp [hname, Ne.symm hname]

instance : Std.Symm ColumnVector.Apart := ⟨fun _ _ h x hx => h x hx.symm⟩

section

variable {assignments : List UpdateAssign} {p : Partition} {rows : List Nat} {c : ColumnVector}
  {i k : Nat}

section

variable (hc : c ∈ p.columns) (hi : i < c.size) (hk : k < c.type.size)

include hc hi hk

/-- An assignment writes the rows of its own column and no byte of another. -/
theorem FillsCells.byte_eq {a : UpdateAssign} (h : FillsCells p a) :
    writtenByte p rows (c.addr + c.type.size * i + k) a =
      if c.name = a.column ∧ i ∈ rows then some (.ofNat 8 (unsigned 64 a.value / 256 ^ k))
      else none := by
  unfold writtenByte
  by_cases hname : c.name = a.column
  · obtain ⟨hget, hsize, -⟩ := h c hc hname
    rw [hsize] at hk ⊢
    have hdiv : (c.addr + 8 * i + k - c.addr) / 8 = i := by omega
    have hmod : (c.addr + 8 * i + k - c.addr) % 8 = k := by omega
    have hle : c.addr ≤ c.addr + 8 * i + k := by omega
    simp only [hget, hdiv, hmod, hname, hi, hle, true_and, and_true]
  rw [if_neg fun hin => hname hin.1]
  cases hd : p.getColumn a.column with
  | none => rfl
  | some d =>
    have hdmem := Partition.getColumn_mem hd
    have hdname : d.name = a.column := by simpa using find?_some hd
    refine if_neg fun hin => ?_
    -- The word would lie in both columns.
    have hapart := p.apart.forall hdmem hc fun heq => hname (heq ▸ hdname)
    have hfits := (p.fits c hc).size_le
    have hdfits := (p.fits d hdmem).size_le
    have hrow : c.type.size * (i + 1) ≤ c.type.size * c.capacity :=
      Nat.mul_le_mul_left _ (by omega)
    rw [Nat.mul_succ] at hrow
    refine hapart (c.addr + c.type.size * i + k) ⟨⟨hin.1, ?_⟩, ⟨by omega, ?_⟩⟩
    · rw [ColumnVector.stop, (h d hdmem hdname).2.1]
      omega
    · rw [ColumnVector.stop]
      omega

/-- The last assignment to a column decides the bytes of its updated rows. -/
theorem byteAfter_of_fills (h : ∀ a ∈ assignments, FillsCells p a) :
    byteAfter assignments p rows (c.addr + c.type.size * i + k) =
      match assignedValue assignments c with
      | some v => if i ∈ rows then .ofNat 8 (unsigned 64 v / 256 ^ k)
        else p.mem (c.addr + c.type.size * i + k)
      | none => p.mem (c.addr + c.type.size * i + k) := by
  induction assignments using reverseRecOn with
  | nil => rfl
  | append_singleton as a ih =>
    rw [forall_mem_append, forall_mem_singleton] at h
    have ih := ih h.1
    unfold byteAfter at ih ⊢
    rw [foldl_append, ih, foldl_cons, foldl_nil, h.2.byte_eq hc hi hk, assignedValue_append]
    by_cases hname : c.name = a.column
    · by_cases hrow : i ∈ rows
      · simp [hname, hrow]
      · simp only [hname, hrow, and_false, if_false, if_true, Option.getD_none]
        split <;> rfl
    · simp [hname]

end

theorem ofInt_of_assigned (hc : c ∈ p.columns) (h : ∀ a ∈ assignments, FillsCells p a) {v : Int}
    (hv : assignedValue assignments c = some v) :
    c.type.size = 8 ∧ c.type.ofInt v = unsigned 64 v := by
  obtain ⟨a, ha, rfl⟩ := Option.map_eq_some_iff.mp hv
  have hname : a.column = c.name := by simpa using find?_some ha
  exact (h a (mem_reverse.mp (mem_of_find?_eq_some ha)) c hc hname.symm).2

theorem updatedCell_eq_expected (h : Assignable assignments p rows) (hc : c ∈ p.columns)
    (hi : i < c.size) :
    updatedCell assignments p rows c i = expectedCell assignments rows p.mem c i := by
  unfold expectedCell
  rcases h with rfl | h
  · have hnil : updateRows assignments p [] = p := (updating assignments).apply_nil p
    rw [← updateRows_cell assignments p [] hi, hnil]
    split <;> simp
  have hdata : c.data ≠ none := (p.fits c hc).data_ne_none hi
  have hin : ¬(c.size ≤ i ∨ c.data = none) := by simp [hdata, hi]
  have hbyte : ∀ k < c.type.size, byteAfter assignments p rows _ = _ :=
    fun k hk => byteAfter_of_fills hc hi hk h
  simp only [updatedCell, if_neg hdata, ColumnVector.cell, if_neg hin, ColumnVector.bits]
  cases hv : assignedValue assignments c with
  | none =>
    simp only [hv] at hbyte ⊢
    exact load_shift hbyte
  | some v =>
    simp only [hv] at hbyte ⊢
    split
    next hrow =>
      simp only [if_pos hrow] at hbyte
      obtain ⟨hsize, hval⟩ := ofInt_of_assigned hc h hv
      have hload : load (store p.mem (c.addr + c.type.size * i) 8 (unsigned 64 v))
          (c.addr + c.type.size * i) 8 = unsigned 64 v := by
        have hwithin := load_store_within (m := p.mem) (a := c.addr + c.type.size * i) (k := 0)
          (v := unsigned 64 v) (show 0 + 8 ≤ 8 by decide)
        simpa using hwithin.trans (Nat.mod_eq_of_lt (by simpa using unsigned_lt 64 v))
      rw [hval, ← hload]
      nth_rewrite 2 [hsize]
      refine load_shift fun k hk => ?_
      rw [hbyte k (by omega), store, if_pos (by omega), Nat.add_sub_cancel_left]
    next hrow =>
      simp only [if_neg hrow] at hbyte
      exact load_shift hbyte

end

/-- `UPDATE trades SET price = -1 WHERE symbol = 1 AND price = 7`. -/
def updateSeven : UpdateStmt (Query 0) where
  tableName := "trades"
  assignments := [⟨"price", -1⟩]
  whereClause := some pricedSeven

def twoLevels : Partition where
  key := ⟨1, 1, 0⟩
  columns := [⟨"level", .int32, some 0, 2, 2⟩]
  mem := fun x => if x = 4 then 5 else 0
  arenaUsed := 8
  arenaSize := 8
  fits := by
    intro c hc
    rw [mem_singleton.mp hc]
    exact ⟨by decide, by simp, by decide⟩
  apart := pairwise_singleton _ _
  handedOut := by
    intro c hc
    rw [mem_singleton.mp hc]
    decide
  used_le := le_refl _
  arena_lt := (by decide : 8 < 2 ^ 32)

/-- The table `levels` with these rows. -/
def twoLevelsDb : Database where
  registry := .singleton "levels" { columns := [⟨"level", .int32⟩], tableId := 1 }
  partitions := [twoLevels]
  keys_nodup := nodup_singleton _

/-- `UPDATE levels SET level = 7 WHERE level = 0`. -/
def updateLevel : UpdateStmt (Query 0) where
  tableName := "levels"
  assignments := [⟨"level", 7⟩]
  whereClause := some (.compare { column := "level" })

end Zepto.Sql
