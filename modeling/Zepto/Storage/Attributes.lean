import Zepto.Storage.Partition

/-!
# What the attributes of a column answer

The `s#`, `g#` and `p#` lookups read a column as 64-bit words, whatever its type. Where the words
are the values, `sortedRange` of an ascending column is the rows with a value in the range
(`sortedRange_iff`), a `g#` index lists the rows of each value (`mem_rows_buildGrouped`), and a `p#`
index of a clustered column gives their range (`ranges_buildParted`).
-/

namespace Zepto.Storage

open List Zepto.Lib

def ColumnType.isWord : ColumnType → Bool
  | .int64 | .timestampNs => true
  | _ => false

theorem ColumnType.size_of_isWord {t : ColumnType} (h : t.isWord) : t.size = 8 := by
  cases t <;> first | rfl | cases h

theorem ColumnType.isFloat_of_isWord {t : ColumnType} (h : t.isWord) : t.isFloat = false := by
  cases t <;> first | rfl | cases h

theorem ColumnType.toI64_of_isWord {t : ColumnType} (h : t.isWord) (x : Nat) :
    t.toI64 x = signed 64 x := by
  cases t <;> first | rfl | cases h

namespace ColumnVector

variable {c : ColumnVector} {m : Mem} {i : Nat}

def Ascending (c : ColumnVector) (m : Mem) : Prop :=
  ∀ i j, i ≤ j → j < c.size → c.readI64 m i ≤ c.readI64 m j

/-- Rows of one value have only rows of that value between them. -/
def Clustered (c : ColumnVector) (m : Mem) : Prop :=
  ∀ i j k, i ≤ j → j ≤ k → k < c.size → c.readI64 m i = c.readI64 m k →
    c.readI64 m j = c.readI64 m i

theorem rawI64_eq_readI64 (hword : c.type.isWord) (hfits : c.Fits) (hi : i < c.size) :
    c.rawI64 m i = c.readI64 m i := by
  unfold rawI64 readI64
  rw [if_neg (not_or.mpr ⟨by omega, hfits.data_ne_none hi⟩), bits,
    ColumnType.size_of_isWord hword, ColumnType.toI64_of_isWord hword]

theorem readI64_range (hint : c.type.isFloat = false) (m : Mem) (i : Nat) :
    int64Min ≤ c.readI64 m i ∧ c.readI64 m i ≤ int64Max := by
  unfold readI64
  split
  · decide
  have hlt : c.bits m i < 256 ^ c.type.size := load_lt _ _ _
  generalize c.type = t at hint hlt
  cases t with
  | int64 | timestampNs => exact signed64_range hlt
  | float32 | float64 => cases hint
  | _ =>
    simp only [ColumnType.toI64, signed, ColumnType.size, int64Min, int64Max] at hlt ⊢
    omega

end ColumnVector

namespace Partition

variable {p : Partition} {c : ColumnVector} {col : String} {i : Nat} {lo hi : Int}

theorem lt_size_of_lt_sortedRange (hc : p.getColumn col = some c)
    (h : i < (p.sortedRange col lo hi).2) : i < c.size := by
  unfold sortedRange at h
  simp only [hc] at h
  split at h
  · omega
  · have hle : upperBoundIdx (c.rawI64 p.mem) c.size hi ≤ c.size := partitionPoint_le _ _
    exact lt_of_lt_of_le h hle

/-- An `s#` lookup of ascending words finds the rows with a value in the range. -/
theorem sortedRange_iff (hc : p.getColumn col = some c) (hword : c.type.isWord)
    (hasc : c.Ascending p.mem) :
    ((p.sortedRange col lo hi).1 ≤ i ∧ i < (p.sortedRange col lo hi).2) ↔
      i < c.size ∧ lo ≤ c.readI64 p.mem i ∧ c.readI64 p.mem i ≤ hi := by
  have hfits := p.fits c (getColumn_mem hc)
  by_cases hi' : i < c.size
  · have hraw : ∀ j < c.size, c.rawI64 p.mem j = c.readI64 p.mem j :=
      fun j hj => c.rawI64_eq_readI64 hword hfits hj
    have hasc' : ∀ a b, a ≤ b → b < c.size → c.rawI64 p.mem a ≤ c.rawI64 p.mem b := by
      intro a b hab hb
      rw [hraw a (by omega), hraw b hb]
      exact hasc a b hab hb
    unfold sortedRange
    simp only [hc]
    rw [if_neg (by omega)]
    simp only [spanRange]
    rw [lowerBoundIdx_le_iff hasc' lo hi', lt_upperBoundIdx_iff hasc' hi hi', hraw i hi']
    exact (and_iff_right hi').symm
  · constructor
    · intro h
      exact absurd (lt_size_of_lt_sortedRange hc h.2) hi'
    · intro h
      exact absurd h.1 hi'

end Partition

theorem mem_foldl_insert {β : Type} {ps : List (Int × β)} {t : AList fun _ : Int => β} {v : Int} :
    v ∈ ps.foldl (fun t q => t.insert q.1 q.2) t ↔ v ∈ ps.map Prod.fst ∨ v ∈ t := by
  induction ps generalizing t with
  | nil => simp
  | cons q ps ih =>
    rw [foldl_cons, ih, AList.mem_insert, map_cons, mem_cons, or_left_comm, or_assoc]

namespace Partition

variable {c : ColumnVector} {m : Mem} {i : Nat}

/-- The index of a column of words lists the rows of each value. -/
theorem mem_rows_buildGrouped (hc : c.Fits) (hword : c.type.isWord) (v : Int) :
    i ∈ ((buildGrouped m c hc).rows.lookup v).getD [] ↔ i < c.size ∧ c.readI64 m i = v := by
  have hrows : i ∈ rowsWith m c v ↔ i < c.size ∧ c.readI64 m i = v := by
    unfold rowsWith
    rw [mem_filter, mem_range, decide_eq_true_eq]
    refine and_congr_right fun hi => ?_
    rw [c.rawI64_eq_readI64 hword hc hi]
  cases hlookup : (buildGrouped m c hc).rows.lookup v with
  | none =>
    refine iff_of_false not_mem_nil fun h => AList.lookup_eq_none.mp hlookup ?_
    refine mem_foldl_insert.mpr (.inl ?_)
    rw [← h.2, ← c.rawI64_eq_readI64 hword hc h.1]
    simpa using ⟨i, h.1, rfl⟩
  | some l =>
    obtain ⟨u, -, hu⟩ := mem_map.mp (mem_of_lookup_insertAll hlookup)
    cases hu
    exact hrows

end Partition

/-! ## The index of `set_parted` -/

namespace Partition

variable {f : Nat → Int} {n : Nat}

/-- A stretch of rows of one value, from `start` on, that goes on on neither side. -/
structure IsRun (f : Nat → Int) (n start : Nat) (r : Int × (Nat × Nat)) : Prop where
  first : start ≤ r.2.1
  nonempty : r.2.1 < r.2.2
  last : r.2.2 ≤ n
  value : ∀ i, r.2.1 ≤ i → i < r.2.2 → f i = r.1
  after : r.2.2 < n → f r.2.2 ≠ r.1
  before : start < r.2.1 → f (r.2.1 - 1) ≠ r.1

/-- The loop of `set_parted` before row `j`, with a run open since `start`. -/
theorem runs_spec (k j start : Nat) (cur : Int) (hk : j + k = n) (hstart : start < j)
    (hcur : ∀ i, start ≤ i → i < j → f i = cur) :
    (∀ r ∈ runs f n (range' j k) cur start, IsRun f n start r) ∧
      ∀ i, start ≤ i → i < n → f i ∈ (runs f n (range' j k) cur start).map Prod.fst := by
  induction k generalizing j start cur with
  | zero =>
    obtain rfl : j = n := hk
    simp only [range'_zero, runs, map_singleton, mem_singleton]
    refine ⟨?_, hcur⟩
    rintro r rfl
    exact ⟨le_refl _, hstart, le_refl _, hcur, fun h => absurd h (lt_irrefl _),
      fun h => absurd h (lt_irrefl _)⟩
  | succ k ih =>
    rw [range'_succ, runs]
    by_cases hj : f j ≠ cur
    · rw [if_pos hj]
      obtain ⟨hruns, hall⟩ := ih (j + 1) j (f j) (by omega) (by omega)
        (fun i h1 h2 => by rw [show i = j by omega])
      constructor
      · refine forall_mem_cons.mpr ⟨⟨le_refl _, hstart, by simp only; omega, hcur,
          fun _ => hj, fun h => absurd h (lt_irrefl _)⟩, fun r hr => ?_⟩
        have hrun := hruns r hr
        refine ⟨by have := hrun.first; omega, hrun.nonempty, hrun.last, hrun.value, hrun.after,
          fun _ => ?_⟩
        rcases eq_or_lt_of_le hrun.first with heq | hlt
        · -- The first run of the rest starts at `j`, behind a row of the old value.
          rw [← heq, hcur (j - 1) (by omega) (by omega)]
          rw [← hrun.value j (by omega) (by have := hrun.nonempty; omega)]
          exact hj.symm
        · exact hrun.before hlt
      · intro i h1 h2
        rw [map_cons, mem_cons]
        by_cases hij : i < j
        · exact .inl (hcur i h1 hij)
        · exact .inr (hall i (by omega) h2)
    · rw [if_neg hj]
      rw [not_not] at hj
      refine ih (j + 1) start cur (by omega) (by omega) fun i h1 h2 => ?_
      by_cases hij : i < j
      · exact hcur i h1 hij
      · rw [show i = j by omega, hj]

variable {c : ColumnVector} {m : Mem} {i : Nat}

/-- The index of a clustered column of words has the rows of each value. -/
theorem ranges_buildParted (hc : c.Fits) (hword : c.type.isWord) (hpos : 0 < c.size)
    (hclustered : c.Clustered m) (v : Int) :
    let r := ((buildParted m c hc).ranges.lookup v).getD (0, 0)
    (r.1 ≤ i ∧ i < r.2) ↔ i < c.size ∧ c.readI64 m i = v := by
  have hraw : ∀ j < c.size, c.rawI64 m j = c.readI64 m j :=
    fun j hj => c.rawI64_eq_readI64 hword hc hj
  obtain ⟨hruns, hall⟩ := runs_spec (f := c.rawI64 m) (n := c.size) (c.size - 1) 1 0
    (c.rawI64 m 0) (by omega) (by omega) (fun i _ h => by rw [show i = 0 by omega])
  intro r
  cases hlookup : (buildParted m c hc).ranges.lookup v with
  | none =>
    have hr : r = (0, 0) := by simp [r, hlookup]
    rw [hr]
    refine iff_of_false (by simp) fun h => ?_
    have hmem := hall i (Nat.zero_le i) h.1
    rw [hraw i h.1, h.2] at hmem
    exact AList.lookup_eq_none.mp hlookup (mem_foldl_insert.mpr (.inl hmem))
  | some range =>
    have hr : r = range := by simp [r, hlookup]
    rw [hr]
    have hrun := hruns (v, range) (mem_of_lookup_insertAll hlookup)
    have hne := hrun.nonempty
    have hlast := hrun.last
    simp only at hne hlast
    constructor
    · rintro ⟨h1, h2⟩
      refine ⟨by omega, ?_⟩
      rw [← hraw i (by omega)]
      exact hrun.value i h1 h2
    rintro ⟨hi, hv⟩
    -- A row of the value outside of the run would have the run's neighbour in between.
    have hfirst : c.readI64 m range.1 = v := by
      rw [← hraw _ (by omega)]
      exact hrun.value range.1 (le_refl _) hne
    constructor
    · by_contra hlt
      have hbefore : c.readI64 m (range.1 - 1) = c.readI64 m i :=
        hclustered i (range.1 - 1) range.1 (by omega) (by omega) (by omega) (by rw [hv, hfirst])
      refine hrun.before (by simp only; omega) ?_
      rw [hraw _ (by simp only; omega)]
      exact hbefore.trans hv
    · by_contra hge
      have hafter : c.readI64 m range.2 = c.readI64 m range.1 :=
        hclustered range.1 range.2 i (by omega) (by omega) hi (by rw [hv, hfirst])
      refine hrun.after (by simp only; omega) ?_
      rw [hraw _ (by simp only; omega)]
      exact hafter.trans hfirst

end Partition

end Zepto.Storage
