import Zepto.Ai.StoreRuns
import Zepto.Ai.UnitRows

/-!
# Maintaining the index of embeddings

An index mirrors a list of memories when its pairs are the partition keys and rows of those that can
be indexed. A write to a store with a clean index makes of it the index of the memories after, or
marks it dirty (`AnnSound.step`). Every step that changes what the index has to hold does this or
raises the generation (`Unmoved`), which is what rebuilds under way rely on.
-/

namespace Zepto.Ai

open List Zepto.Lib

/-- The embedding has a unit vector, so that an index takes it. -/
def MemoryRecord.Indexable (r : MemoryRecord) : Prop :=
  r.embedding ≠ [] ∧ r.embedding.hasNorm = true

instance (r : MemoryRecord) : Decidable r.Indexable := inferInstanceAs (Decidable (_ ∧ _))

/-- The pairs an index of the memories holds. -/
def Holds (memories : List MemoryRecord) (key : Bytes) (row : Nat) : Prop :=
  ∃ r, memories[row]? = some r ∧ r.annKey = key ∧ r.Indexable

section Holds

variable {memories : List MemoryRecord} {r : MemoryRecord} {key : Bytes} {row i : Nat}

theorem holds_of_getElem? (h : memories[row]? = some r) :
    Holds memories key row ↔ r.annKey = key ∧ r.Indexable := by
  simp [Holds, h]

theorem not_holds_of_le (h : memories.length ≤ row) : ¬ Holds memories key row := by
  rintro ⟨r, hr, -⟩
  rw [getElem?_eq_none h] at hr
  cases hr

theorem Holds.succ_lt (h : Holds memories key i) (hne : i ≠ memories.length - 1) :
    i + 1 < memories.length := by
  by_contra hlen
  exact not_holds_of_le (by omega) h

theorem holds_append : Holds (memories ++ [r]) key i ↔
    Holds memories key i ∨ i = memories.length ∧ r.annKey = key ∧ r.Indexable := by
  rcases lt_trichotomy i memories.length with hi | hi | hi
  · simp [Holds, getElem?_append_left hi, ne_of_lt hi]
  · subst hi
    rw [holds_of_getElem? getElem?_concat_length]
    simp [not_holds_of_le]
  · have h1 : ¬ Holds memories key i := not_holds_of_le hi.le
    have h2 : ¬ Holds (memories ++ [r]) key i := not_holds_of_le (by simpa using hi)
    simp [h1, h2, ne_of_gt hi]

theorem holds_set (hrow : row < memories.length) : Holds (memories.set row r) key i ↔
    Holds memories key i ∧ i ≠ row ∨ i = row ∧ r.annKey = key ∧ r.Indexable := by
  by_cases hi : i = row
  · subst hi
    rw [holds_of_getElem? (getElem?_set_self hrow)]
    simp
  · simp [Holds, getElem?_set_ne (symm hi), hi]

theorem holds_swapRemove (hrow : row < memories.length) : Holds (swapRemove memories row) key i ↔
    i + 1 < memories.length ∧
      (if i = row then Holds memories key (memories.length - 1) else Holds memories key i) := by
  simp only [Holds, getElem?_swapRemove hrow]
  by_cases hi : i + 1 < memories.length
  · by_cases hir : i = row
    · subst hir
      simp [hi, getLast?_eq_getElem?]
    · simp [hi, hir]
  · simp [hi]

end Holds

namespace AnnIndex

/-- The index is one of the memories. -/
structure Mirrors (idx : AnnIndex) (dim : Nat) (memories : List MemoryRecord) : Prop where
  valid : idx.Valid
  dimension : idx.dimension = 0 ∨ idx.dimension = dim
  active_iff : ∀ key row, idx.Active key row ↔ Holds memories key row

/-- The same for all rows but one, which the index does not have. -/
structure MirrorsBut (idx : AnnIndex) (dim : Nat) (memories : List MemoryRecord) (gap : Nat) :
    Prop where
  valid : idx.Valid
  dimension : idx.dimension = 0 ∨ idx.dimension = dim
  active_iff : ∀ key row, idx.Active key row ↔ Holds memories key row ∧ row ≠ gap

variable {idx : AnnIndex} {dim row : Nat} {memories : List MemoryRecord} {r : MemoryRecord}

theorem Mirrors.congr {memories' : List MemoryRecord} (h : idx.Mirrors dim memories)
    (hm : ∀ key row, Holds memories' key row ↔ Holds memories key row) :
    idx.Mirrors dim memories' :=
  ⟨h.valid, h.dimension, fun key row => (h.active_iff key row).trans (hm key row).symm⟩

theorem Mirrors.withDimension {dim' : Nat} (h : idx.Mirrors 0 memories) :
    idx.Mirrors dim' memories :=
  ⟨h.valid, .inl (h.dimension.elim id id), h.active_iff⟩

/-- A memory that is appended is added, unless it has no pair. -/
theorem Mirrors.append (h : idx.Mirrors dim memories) (hr : Fits dim r.embedding) :
    (if r.embedding.isEmpty then (true, idx)
      else idx.add r.annKey memories.length r.embedding).2.Mirrors dim (memories ++ [r]) := by
  by_cases he : r.embedding = []
  · rw [if_pos (by simp [he])]
    refine h.congr fun key row => ?_
    rw [holds_append]
    simp [MemoryRecord.Indexable, he]
  rw [if_neg (by simpa using he)]
  obtain ⟨hvalid, -, hact⟩ := active_add h.valid r.annKey memories.length r.embedding
  have hlen : r.embedding.length = dim := hr.resolve_left he
  -- The row is new and the dimension fits, so that only the norm can be in the way.
  have haddable : idx.Addable r.annKey memories.length r.embedding ↔ r.Indexable := by
    refine ⟨fun ha => ⟨he, ha.2.2.1⟩, fun hind => ⟨he, ?_, hind.2, fun ha => ?_⟩⟩
    · rw [hlen]
      exact h.dimension
    · exact not_holds_of_le le_rfl ((h.active_iff _ _).mp ha)
  refine ⟨hvalid, ?_, fun key row => ?_⟩
  · rcases dimension_add idx r.annKey memories.length r.embedding with hd | ⟨-, hd⟩
    · rw [hd]
      exact h.dimension
    · rw [hd]
      exact .inr hlen
  · rw [hact, h.active_iff, holds_append, haddable]
    exact or_congr_right ⟨fun ⟨hind, hk, hrow⟩ => ⟨hrow, hk.symm, hind⟩,
      fun ⟨hrow, hk, hind⟩ => ⟨hind, hk.symm, hrow⟩⟩

/-- The entry of a row is removed. -/
theorem Mirrors.removed (h : idx.Mirrors dim memories) (hr : memories[row]? = some r) :
    (if r.embedding.isEmpty then (true, idx) else idx.remove r.annKey row).2.MirrorsBut dim
      memories row := by
  by_cases he : r.embedding = []
  · rw [if_pos (by simp [he])]
    refine ⟨h.valid, h.dimension, fun key i => ?_⟩
    rw [h.active_iff]
    refine ⟨fun hh => ⟨hh, ?_⟩, And.left⟩
    rintro rfl
    rw [holds_of_getElem? hr] at hh
    exact hh.2.1 he
  · rw [if_neg (by simpa using he)]
    obtain ⟨hvalid, -, hact⟩ := active_remove h.valid r.annKey row
    refine ⟨hvalid, by rw [dimension_remove]; exact h.dimension, fun key i => ?_⟩
    rw [hact, h.active_iff]
    refine and_congr_right fun hh => ⟨fun hne hi => ?_, fun hne hk => hne hk.2⟩
    subst hi
    rw [holds_of_getElem? hr] at hh
    exact hne ⟨hh.1.symm, rfl⟩

/-- A memory is put in the row that the index does not have. -/
theorem MirrorsBut.fill (h : idx.MirrorsBut dim memories row) (hrow : row < memories.length)
    (hr : Fits dim r.embedding) :
    (if r.embedding.isEmpty then (true, idx) else idx.add r.annKey row r.embedding).1 →
    (if r.embedding.isEmpty then (true, idx) else idx.add r.annKey row r.embedding).2.Mirrors dim
      (memories.set row r) := by
  by_cases he : r.embedding = []
  · rw [if_pos (by simp [he])]
    refine fun _ => ⟨h.valid, h.dimension, fun key i => ?_⟩
    rw [h.active_iff, holds_set hrow]
    simp [MemoryRecord.Indexable, he]
  rw [if_neg (by simpa using he)]
  intro hok
  obtain ⟨hvalid, hadd, hact⟩ := active_add h.valid r.annKey row r.embedding
  rw [hadd] at hok
  refine ⟨hvalid, ?_, fun key i => ?_⟩
  · rcases dimension_add idx r.annKey row r.embedding with hd | ⟨-, hd⟩
    · rw [hd]
      exact h.dimension
    · rw [hd]
      exact .inr (hr.resolve_left he)
  · rw [hact, h.active_iff, holds_set hrow]
    have hind : r.Indexable := ⟨he, hok.2.2.1⟩
    simp only [hok, true_and, hind, and_true]
    exact or_congr_right ⟨fun h => ⟨h.2, h.1.symm⟩, fun h => ⟨h.2.symm, h.1⟩⟩

/-- The last row gets the number of the row that the index does not have. -/
theorem MirrorsBut.move (h : idx.MirrorsBut dim memories row) (hrow : row < memories.length - 1)
    (hlast : memories[memories.length - 1]? = some r) :
    (if r.embedding.isEmpty then (true, idx)
      else idx.updateRowId r.annKey (memories.length - 1) row).1 →
    (if r.embedding.isEmpty then (true, idx)
      else idx.updateRowId r.annKey (memories.length - 1) row).2.Mirrors dim
      (swapRemove memories row) := by
  have hlt : row < memories.length := by omega
  have hne : memories.length - 1 ≠ row := by omega
  by_cases he : r.embedding = []
  · rw [if_pos (by simp [he])]
    refine fun _ => ⟨h.valid, h.dimension, fun key i => ?_⟩
    have hno : ∀ key, ¬ Holds memories key (memories.length - 1) := fun key hh => by
      rw [holds_of_getElem? hlast] at hh
      exact hh.2.1 he
    rw [h.active_iff, holds_swapRemove hlt]
    by_cases hi : i = row
    · simp [hi, hno]
    rw [if_neg hi]
    refine ⟨fun hh => ⟨?_, hh.1⟩, fun hh => ⟨hh.2, hi⟩⟩
    exact hh.1.succ_lt fun hi => hno key (hi ▸ hh.1)
  · rw [if_neg (by simpa using he)]
    intro hok
    obtain ⟨hvalid, hiff, hact⟩ := active_updateRowId h.valid r.annKey hne
    rw [hiff, h.active_iff, holds_of_getElem? hlast] at hok
    have hind : r.Indexable := hok.1.1.2
    refine ⟨hvalid, by rw [dimension_updateRowId]; exact h.dimension, fun key i => ?_⟩
    have hok' := hiff.mpr (by rw [h.active_iff, holds_of_getElem? hlast]; exact hok)
    rw [hact hok', h.active_iff, holds_swapRemove hlt]
    by_cases hi : i = row
    · subst hi
      rw [holds_of_getElem? hlast]
      simp only [ne_eq, not_true, and_false, false_and, false_or, and_true, hind]
      exact ⟨fun hk => ⟨by omega, hk.symm⟩, fun hk => hk.2.symm⟩
    rw [if_neg hi]
    constructor
    · rintro (⟨⟨hh, -⟩, hno⟩ | ⟨-, hk⟩)
      · refine ⟨hh.succ_lt ?_, hh⟩
        rintro rfl
        exact hno ⟨((holds_of_getElem? hlast).mp hh).1.symm, rfl⟩
      · exact absurd hk hi
    · rintro ⟨hlen, hh⟩
      exact .inl ⟨⟨hh, hi⟩, fun hk => by omega⟩

/-- The last row is the one that the index does not have. -/
theorem MirrorsBut.pop (h : idx.MirrorsBut dim memories row) (hrow : row + 1 = memories.length) :
    idx.Mirrors dim (swapRemove memories row) := by
  refine ⟨h.valid, h.dimension, fun key i => ?_⟩
  rw [h.active_iff, holds_swapRemove (by omega)]
  by_cases hi : i = row
  · subst hi
    omega
  rw [if_neg hi]
  exact ⟨fun hh => ⟨hh.1.succ_lt (by omega), hh.1⟩, fun hh => ⟨hh.2, hi⟩⟩

end AnnIndex

namespace AnnState

/-! ## The state of the index -/

theorem requestRebuild_eq (a : AnnState) :
    ∃ q g, a.requestRebuild = { a with requested := q, requestedGeneration := g } := by
  unfold requestRebuild
  split
  · exact ⟨_, _, rfl⟩
  split
  · exact ⟨_, _, rfl⟩
  split
  · exact ⟨_, _, rfl⟩
  split
  · exact ⟨_, _, rfl⟩
  split
  all_goals exact ⟨_, _, rfl⟩

theorem markDirty_eq (a : AnnState) : ∃ q g, a.markDirty = { a with
      dirty := true, generation := a.generation + 1,
      requested := q, requestedGeneration := g } := by
  unfold markDirty
  extract_lets b
  split
  · obtain ⟨q, g, h⟩ := b.requestRebuild_eq
    exact ⟨q, g, h⟩
  · exact ⟨_, _, rfl⟩

@[simp]
theorem markDirty_dirty (a : AnnState) : a.markDirty.dirty := by
  obtain ⟨q, g, h⟩ := a.markDirty_eq
  rw [h]

theorem lt_markDirty_generation (a : AnnState) : a.generation < a.markDirty.generation := by
  obtain ⟨q, g, h⟩ := a.markDirty_eq
  rw [h]
  exact Nat.lt_succ_self _

@[simp]
theorem markDirty_config (a : AnnState) : a.markDirty.config = a.config := by
  obtain ⟨q, g, h⟩ := a.markDirty_eq
  rw [h]

/-- An index that is not dirty is in use and is one of the memories. -/
def Mirrors (a : AnnState) (dim : Nat) (memories : List MemoryRecord) : Prop :=
  a.dirty = false → a.config.mode ≠ .off ∧ ∃ idx, a.index = some idx ∧ idx.Mirrors dim memories

structure Follows (a b : AnnState) : Prop where
  generation_le : a.generation ≤ b.generation
  config_eq : b.config = a.config

variable {a b : AnnState} {dim row : Nat} {memories : List MemoryRecord} {r : MemoryRecord}

variable {f : AnnIndex → Bool × AnnIndex} {idx : AnnIndex}

theorem Follows.refl (a : AnnState) : a.Follows a := ⟨le_refl _, rfl⟩

theorem Follows.trans {c : AnnState} (h : a.Follows b) (h' : b.Follows c) : a.Follows c :=
  ⟨h.generation_le.trans h'.generation_le, h'.config_eq.trans h.config_eq⟩

theorem follows_markDirty (a : AnnState) : a.Follows a.markDirty :=
  ⟨(lt_markDirty_generation a).le, by simp⟩

theorem mirrors_of_dirty (h : a.dirty) : a.Mirrors dim memories := fun hf => by
  rw [h] at hf
  cases hf

theorem Mirrors.clean_eq (h : a.Mirrors dim memories) : a.clean = !a.dirty := by
  cases hd : a.dirty with
  | true => simp [clean, hd]
  | false =>
    obtain ⟨hm, idx, hi, -⟩ := h hd
    simp [clean, hd, hm, hi]

theorem Mirrors.congr {memories' : List MemoryRecord} (h : a.Mirrors dim memories)
    (hm : ∀ key row, Holds memories' key row ↔ Holds memories key row) :
    a.Mirrors dim memories' := fun hd => by
  obtain ⟨hmode, idx, hi, hidx⟩ := h hd
  exact ⟨hmode, idx, hi, hidx.congr hm⟩

theorem maintain_eq (hd : a.dirty = false) (hi : a.index = some idx) :
    a.maintain f = ((f idx).1, { a with index := some (f idx).2 }) := by
  simp [maintain, hi, hd]

theorem follows_maintain (a : AnnState) (f : AnnIndex → Bool × AnnIndex) :
    a.Follows (a.maintain f).2 := by
  unfold maintain
  split
  · exact .refl a
  · split
    · exact .refl a
    · exact ⟨le_refl _, rfl⟩

theorem follows_orDirty {result : Bool × AnnState} (h : a.Follows result.2) :
    a.Follows (orDirty result) := by
  unfold orDirty
  split
  · exact h
  · exact h.trans (follows_markDirty _)

/-- Maintenance that succeeds leaves an index of the memories. -/
theorem mirrors_orDirty (hd : a.dirty = false) (hmode : a.config.mode ≠ .off)
    (hi : a.index = some idx) (h : (f idx).1 → (f idx).2.Mirrors dim memories) :
    (orDirty (a.maintain f)).Mirrors dim memories := by
  rw [maintain_eq hd hi, orDirty]
  split
  next hok =>
    exact fun _ => ⟨hmode, _, rfl, h hok⟩
  · exact mirrors_of_dirty (markDirty_dirty _)

theorem follows_removeRow (a : AnnState) (count row : Nat) (removed moved : MemoryRecord) :
    a.Follows (a.removeRow count row removed moved) := by
  unfold removeRow
  split
  · refine follows_orDirty ?_
    split
    · exact (follows_maintain a _).trans (follows_maintain _ _)
    · exact follows_maintain a _
  · exact .refl a

theorem Mirrors.removeRow {removed moved : MemoryRecord} (h : a.Mirrors dim memories)
    (hrow : memories[row]? = some removed) (hlast : memories.getLast? = some moved) :
    (a.removeRow memories.length row removed moved).Mirrors dim (swapRemove memories row) := by
  have hlt : row < memories.length := (List.getElem?_eq_some_iff.mp hrow).1
  unfold AnnState.removeRow
  rw [h.clean_eq]
  cases hd : a.dirty with
  | true =>
    exact mirrors_of_dirty hd
  | false =>
    obtain ⟨hmode, idx, hi, hidx⟩ := h hd
    rw [Bool.not_false, if_pos rfl, tryRemove, maintain_eq hd hi]
    simp only [if_neg (not_le.mpr hlt)]
    have hgap := hidx.removed hrow
    revert hgap
    generalize (if removed.embedding.isEmpty = true then (true, idx)
      else idx.remove removed.annKey row) = first
    intro hgap
    by_cases hmove : (decide (row ≠ memories.length - 1) && first.1)
    · rw [if_pos hmove]
      rw [Bool.and_eq_true, decide_eq_true_eq] at hmove
      refine mirrors_orDirty hd hmode rfl ?_
      have hne : ¬ memories.length - 1 = row := symm hmove.1
      rw [getLast?_eq_getElem?] at hlast
      simp only [hne, decide_false, Bool.or_false, Bool.not_not]
      exact hgap.move (by omega) hlast
    · rw [if_neg hmove, orDirty]
      split
      next hok =>
        have hfirst : first.1 := hok
        have hrowlast : row + 1 = memories.length := by
          rw [hfirst, Bool.and_true, decide_eq_true_eq] at hmove
          omega
        exact fun _ => ⟨hmode, _, rfl, hgap.pop hrowlast⟩
      · exact mirrors_of_dirty (markDirty_dirty _)

/-- A memory that is appended is indexed, or the index is marked dirty. -/
theorem Mirrors.append (h : a.Mirrors dim memories) (hr : Fits dim r.embedding)
    (hd : a.dirty = false) :
    (orDirty (a.tryAdd (memories.length + 1) memories.length r)).Mirrors dim (memories ++ [r]) := by
  obtain ⟨hmode, idx, hi, hidx⟩ := h hd
  refine mirrors_orDirty hd hmode hi ?_
  simp only [if_neg (not_le.mpr (Nat.lt_succ_self memories.length))]
  exact fun _ => hidx.append hr

/-- A replaced memory is indexed in its place, or the index is marked dirty. -/
theorem Mirrors.replace {old : MemoryRecord} (h : a.Mirrors dim memories)
    (hold : memories[row]? = some old) (hr : Fits dim r.embedding) (hd : a.dirty = false) :
    (orDirty (a.tryReplace memories.length old.annKey (!old.embedding.isEmpty) row r)).Mirrors dim
      (memories.set row r) := by
  obtain ⟨hmode, idx, hi, hidx⟩ := h hd
  have hlt : row < memories.length := (List.getElem?_eq_some_iff.mp hold).1
  refine mirrors_orDirty hd hmode hi ?_
  have hgap := hidx.removed hold
  have hfirst : (if (!old.embedding.isEmpty) = true then idx.remove old.annKey row
      else (true, idx)) = if old.embedding.isEmpty = true then (true, idx)
      else idx.remove old.annKey row := by
    cases old.embedding.isEmpty <;> rfl
  simp only [if_neg (not_le.mpr hlt), hfirst]
  revert hgap
  generalize (if old.embedding.isEmpty = true then (true, idx)
    else idx.remove old.annKey row) = first
  intro hgap
  split
  next hno =>
    intro hok
    rw [hok] at hno
    cases hno
  · exact hgap.fill hlt hr

end AnnState

/-! ## The index of the ids -/

def Indexes (m : AList (fun _ : Bytes => Nat)) (ids : List Bytes) : Prop :=
  ∀ id i, m.lookup id = some i ↔ ids[i]? = some id

namespace Indexes

variable {m : AList (fun _ : Bytes => Nat)} {ids : List Bytes} {id : Bytes} {row : Nat}

theorem empty : Indexes ∅ [] := fun id i => by simp

theorem inj (h : Indexes m ids) {i j : Nat} (hi : ids[i]? = some id) (hj : ids[j]? = some id) :
    i = j :=
  Option.some.inj (((h id i).mpr hi).symm.trans ((h id j).mpr hj))

theorem append (h : Indexes m ids) (hid : m.lookup id = none) :
    Indexes (m.insert id ids.length) (ids ++ [id]) := by
  intro id' i
  have hfresh : ∀ j, ids[j]? ≠ some id := fun j hj => by
    rw [← h id j, hid] at hj
    cases hj
  rw [getElem?_append]
  by_cases heq : id' = id
  · subst heq
    rw [AList.lookup_insert, Option.some.injEq]
    split_ifs with hi
    · exact ⟨fun hh => by omega, fun hh => absurd hh (hfresh i)⟩
    rw [getElem?_singleton]
    by_cases h0 : i - ids.length = 0
    · simp only [h0, ↓reduceIte, iff_true]
      omega
    · simp only [h0, ↓reduceIte, reduceCtorEq, iff_false]
      omega
  · rw [AList.lookup_insert_ne heq, h]
    split
    · rfl
    rw [getElem?_eq_none (by omega), getElem?_singleton]
    split
    · simp [Ne.symm heq]
    · rfl

theorem swapRemove {removed moved : Bytes} (h : Indexes m ids) (hrow : ids[row]? = some removed)
    (hlast : ids.getLast? = some moved) :
    Indexes ((if row ≠ ids.length - 1 then m.insert moved row else m).erase removed)
      (swapRemove ids row) := by
  have hlt : row < ids.length := (List.getElem?_eq_some_iff.mp hrow).1
  rw [getLast?_eq_getElem?] at hlast
  intro id i
  rw [getElem?_swapRemove hlt, getLast?_eq_getElem?, hlast]
  by_cases hid : id = removed
  · subst hid
    rw [AList.lookup_erase]
    simp only [reduceCtorEq, false_iff]
    split
    · split
      next hi hir =>
        intro hm
        rw [Option.some.inj hm] at hlast
        have := h.inj hrow hlast
        omega
      next hir =>
        intro hi
        exact hir (h.inj hi hrow)
    · exact nofun
  · rw [AList.lookup_erase_ne hid]
    by_cases hmoved : id = moved
    · subst hmoved
      -- The last row has moved, and it was not the row that is removed.
      have hne : row ≠ ids.length - 1 := fun heq => by
        rw [← heq, hrow] at hlast
        exact hid (Option.some.inj hlast).symm
      rw [if_pos hne, AList.lookup_insert, Option.some.injEq]
      split
      · split
        next hir =>
          exact ⟨fun _ => rfl, fun _ => hir.symm⟩
        next hi hir =>
          refine ⟨fun hh => absurd hh.symm hir, fun hh => ?_⟩
          have := h.inj hh hlast
          omega
      next hi =>
        exact ⟨fun hh => by omega, nofun⟩
    · have hlookup : (if row ≠ ids.length - 1 then m.insert moved row else m).lookup id =
          m.lookup id := by
        split
        · exact AList.lookup_insert_ne hmoved
        · rfl
      rw [hlookup, h]
      split
      · split
        next hir =>
          subst hir
          rw [hrow, Option.some.injEq, Option.some.injEq]
          exact ⟨fun hh => absurd hh.symm hid, fun hh => absurd hh.symm hmoved⟩
        · rfl
      next hi =>
        refine ⟨fun hh => ?_, nofun⟩
        have hle : i < ids.length := (List.getElem?_eq_some_iff.mp hh).1
        have hi' : i = ids.length - 1 := by omega
        rw [hi', hlast] at hh
        exact absurd (Option.some.inj hh).symm hmoved

end Indexes

end Zepto.Ai
