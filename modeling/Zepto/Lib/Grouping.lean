import Mathlib.Data.List.AList
import Mathlib.Data.List.Induction

/-!
# Folds by key

An `Accumulator` folds values into a state. `groupFold` keeps one state for each key; the state of
a key is the fold of its values (`lookup_groupFold`).
-/

namespace Zepto.Lib

open List

structure Accumulator (σ α : Type) where
  init : σ
  step : σ → α → σ

/-- Apply a function along three lists. -/
def zipThree {α β γ δ : Type} (f : α → β → γ → δ) : List α → List β → List γ → List δ
  | a :: as, b :: bs, c :: cs => f a b c :: zipThree f as bs cs
  | _, _, _ => []

/-! ## One state for each key -/

section

variable {κ σ α : Type} [DecidableEq κ] (A : Accumulator σ α)

def valuesOf (k : κ) (rows : List (κ × α)) : List α :=
  (rows.filter fun r => r.1 = k).map Prod.snd

/-- The state of a key after more values; without any there may be none. -/
def advance (o : Option σ) (xs : List α) : Option σ :=
  if xs.isEmpty then o else some (xs.foldl A.step (o.getD A.init))

def groupStep (g : AList fun _ : κ => σ) (r : κ × α) : AList fun _ : κ => σ :=
  g.insert r.1 (A.step ((g.lookup r.1).getD A.init) r.2)

def groupFold (rows : List (κ × α)) : AList fun _ : κ => σ := rows.foldl (groupStep A) ∅

variable {A}

theorem valuesOf_append (k : κ) (rows rows' : List (κ × α)) :
    valuesOf k (rows ++ rows') = valuesOf k rows ++ valuesOf k rows' := by
  simp [valuesOf]

theorem advance_cons (o : Option σ) (x : α) (xs : List α) :
    advance A (some (A.step (o.getD A.init) x)) xs = advance A o (x :: xs) := by
  cases xs <;> rfl

theorem lookup_foldl_groupStep (k : κ) (rows : List (κ × α)) (g : AList fun _ : κ => σ) :
    (rows.foldl (groupStep A) g).lookup k = advance A (g.lookup k) (valuesOf k rows) := by
  induction rows generalizing g with
  | nil => rfl
  | cons r rows ih =>
    rw [foldl_cons, ih]
    by_cases hr : r.1 = k
    · subst hr
      have hvals : valuesOf r.1 (r :: rows) = r.2 :: valuesOf r.1 rows := by simp [valuesOf]
      rw [hvals, ← advance_cons, groupStep, AList.lookup_insert]
    · have hvals : valuesOf k (r :: rows) = valuesOf k rows := by simp [valuesOf, hr]
      rw [hvals, groupStep, AList.lookup_insert_ne (fun h => hr h.symm)]

/-- The state of a key is the fold of its values. -/
theorem lookup_groupFold (k : κ) (rows : List (κ × α)) :
    (groupFold A rows).lookup k = advance A none (valuesOf k rows) :=
  lookup_foldl_groupStep k rows ∅

/-- Groupings with the same states are the same up to order. -/
theorem perm_entries_of_lookup {g g' : AList fun _ : κ => σ}
    (h : ∀ k, g.lookup k = g'.lookup k) : g.entries.Perm g'.entries :=
  lookup_ext g.nodupKeys g'.nodupKeys fun k v => by
    rw [show dlookup k g.entries = dlookup k g'.entries from h k]

theorem lookup_insert_cases {t : AList fun _ : κ => σ} {k k' : κ} {v v' : σ}
    (h : (t.insert k v).lookup k' = some v') :
    k' = k ∧ v' = v ∨ k' ≠ k ∧ t.lookup k' = some v' := by
  by_cases hk : k' = k
  · subst hk
    rw [AList.lookup_insert] at h
    exact .inl ⟨rfl, (Option.some.inj h).symm⟩
  · rw [AList.lookup_insert_ne hk] at h
    exact .inr ⟨hk, h⟩

theorem lookup_of_lookup_erase {t : AList fun _ : κ => σ} {k k' : κ} {v : σ}
    (h : (t.erase k).lookup k' = some v) : t.lookup k' = some v := by
  by_cases hk : k' = k
  · subst hk
    rw [AList.lookup_erase] at h
    cases h
  · rwa [AList.lookup_erase_ne hk] at h

/-- A loop that stores one value under each of distinct keys. -/
theorem lookup_foldl_insert {S ι : Type} {key : ι → κ} {val : ι → σ} {l : List ι}
    (h : (l.map key).Nodup) (table : S → AList fun _ : κ => σ) {step : S → ι → S}
    (hstep : ∀ s e, table (step s e) = (table s).insert (key e) (val e)) (s : S) {k : κ} {v : σ} :
    (table (l.foldl step s)).lookup k = some v ↔
      (∃ e ∈ l, key e = k ∧ val e = v) ∨ k ∉ l.map key ∧ (table s).lookup k = some v := by
  induction l generalizing s with
  | nil => simp
  | cons e l ih =>
    rw [map_cons, nodup_cons] at h
    rw [foldl_cons, ih h.2, hstep]
    by_cases hk : k = key e
    · subst hk
      have hnot : ¬∃ e' ∈ l, key e' = key e ∧ val e' = v :=
        fun ⟨e', he', hkey, _⟩ => h.1 (mem_map.mpr ⟨e', he', hkey⟩)
      simp [hnot, h.1]
    · simp [hk, Ne.symm hk]

end

end Zepto.Lib
