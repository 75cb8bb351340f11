import Mathlib.Data.List.Sort
import Zepto.Lib.SortedMap

/-!
# Successors on a ring

`IsNext S k p` says that `p` is the first point of `S` at or after `k`, where after the last point
the first one follows. Points that are added or taken away change the successor of `k` only to or
from such a point (`IsNext.of_subset`). `SortedMap.next` looks the successor up.
-/

namespace Zepto.Lib

open List

variable {α β : Type*} [LinearOrder α]

/-- `p` is the first point at or after `k`, past the end the first of all. -/
def IsNext (S : α → Prop) (k p : α) : Prop :=
  S p ∧ ((k ≤ p ∧ ∀ q, S q → k ≤ q → p ≤ q) ∨ ((∀ q, S q → q < k) ∧ ∀ q, S q → p ≤ q))

namespace IsNext

variable {S T : α → Prop} {k p q : α}

theorem of_subset (h : IsNext T k p) (hsub : ∀ x, S x → T x) (hp : S p) : IsNext S k p := by
  obtain ⟨-, ⟨hk, hmin⟩ | ⟨hall, hmin⟩⟩ := h
  · exact ⟨hp, .inl ⟨hk, fun x hx => hmin x (hsub x hx)⟩⟩
  · exact ⟨hp, .inr ⟨fun x hx => hall x (hsub x hx), fun x hx => hmin x (hsub x hx)⟩⟩

theorem unique (hp : IsNext S k p) (hq : IsNext S k q) : p = q := by
  obtain ⟨hSp, ⟨hkp, hminp⟩ | ⟨hallp, hminp⟩⟩ := hp
  · obtain ⟨hSq, ⟨hkq, hminq⟩ | ⟨hallq, -⟩⟩ := hq
    · exact le_antisymm (hminp q hSq hkq) (hminq p hSp hkp)
    · exact absurd (hallq p hSp) (not_lt.mpr hkp)
  · obtain ⟨hSq, ⟨hkq, -⟩ | ⟨-, hminq⟩⟩ := hq
    · exact absurd (hallp q hSq) (not_lt.mpr hkq)
    · exact le_antisymm (hminp q hSq) (hminq p hSp)

end IsNext

/-! ## Entries of a sorted map -/

theorem mem_insertEntry {k : α} {v : β} {l : List (α × β)} {e : α × β}
    (hl : l.Pairwise fun a b => a.1 < b.1) :
    e ∈ insertEntry k v l ↔ e = (k, v) ∨ (e ∈ l ∧ e.1 ≠ k) := by
  induction l with
  | nil => simp [insertEntry]
  | cons e' l ih =>
    obtain ⟨k', v'⟩ := e'
    obtain ⟨hhead, htail⟩ := pairwise_cons.mp hl
    simp only [insertEntry]
    split
    next hlt =>
      -- All old keys are above the new one.
      have habove : ∀ x ∈ (k', v') :: l, x.1 ≠ k := by
        intro x hx
        rcases mem_cons.mp hx with rfl | hx
        · exact ne_of_gt hlt
        · exact ne_of_gt (hlt.trans (hhead x hx))
      rw [mem_cons]
      constructor
      · rintro (rfl | he)
        · exact .inl rfl
        · exact .inr ⟨he, habove e he⟩
      · rintro (rfl | he)
        · exact .inl rfl
        · exact .inr he.1
    next hge =>
      split_ifs with heq
      · subst heq
        rw [mem_cons, mem_cons]
        constructor
        · rintro (rfl | he)
          · exact .inl rfl
          · exact .inr ⟨.inr he, ne_of_gt (hhead e he)⟩
        rintro (rfl | ⟨rfl | he, hne⟩)
        · exact .inl rfl
        · exact absurd rfl hne
        · exact .inr he
      · rw [mem_cons, mem_cons, ih htail]
        constructor
        · rintro (rfl | rfl | ⟨he, hek⟩)
          · exact .inr ⟨.inl rfl, fun h => heq h.symm⟩
          · exact .inl rfl
          · exact .inr ⟨.inr he, hek⟩
        rintro (rfl | ⟨rfl | he, hek⟩)
        · exact .inr (.inl rfl)
        · exact .inl rfl
        · exact .inr (.inr ⟨he, hek⟩)

namespace SortedMap

variable {m m' : SortedMap α β} {k : α} {v : β} {e : α × β}

section

variable {e : α × β} {ks : List α} {m : SortedMap α β}

theorem mem_insert : e ∈ (m.insert k v).entries ↔ e = (k, v) ∨ (e ∈ m.entries ∧ e.1 ≠ k) :=
  mem_insertEntry m.sorted

theorem mem_erase : e ∈ (m.erase k).entries ↔ e ∈ m.entries ∧ e.1 ≠ k := by
  simp [erase]

theorem eq_of_mem_iff (h : ∀ e, e ∈ m.entries ↔ e ∈ m'.entries) : m = m' := by
  obtain ⟨l, hl⟩ := m
  obtain ⟨l', hl'⟩ := m'
  have heq : l = l' := Pairwise.eq_of_mem_iff hl hl' h
  subst heq
  rfl

theorem eq_of_key_eq {e' : α × β} (he : e ∈ m.entries) (he' : e' ∈ m.entries) (hkey : e.1 = e'.1) :
    e = e' := by
  obtain ⟨l, hl⟩ := m
  induction l with
  | nil => simp at he
  | cons x l ih =>
    obtain ⟨hhead, htail⟩ := pairwise_cons.mp hl
    rcases mem_cons.mp he with rfl | hl1
    · rcases mem_cons.mp he' with rfl | hl2
      · rfl
      · exact absurd hkey (ne_of_lt (hhead e' hl2))
    · rcases mem_cons.mp he' with rfl | hl2
      · exact absurd hkey.symm (ne_of_lt (hhead e hl1))
      · exact ih htail hl1 hl2

/-! ## Looking up the successor -/

def HasKey (m : SortedMap α β) (k : α) : Prop := ∃ v, (k, v) ∈ m.entries

/-- The first entry at or after `k`, past the end the first of all. -/
def next (m : SortedMap α β) (k : α) : Option (α × β) := (m.lowerBound k).or m.entries.head?

theorem lowerBound_some (h : m.lowerBound k = some e) :
    e ∈ m.entries ∧ k ≤ e.1 ∧ ∀ x ∈ m.entries, k ≤ x.1 → e.1 ≤ x.1 := by
  obtain ⟨l, hl⟩ := m
  simp only [lowerBound] at h ⊢
  induction l with
  | nil => simp at h
  | cons x l ih =>
    obtain ⟨hhead, htail⟩ := pairwise_cons.mp hl
    rw [find?_cons] at h
    split at h
    next hx =>
      obtain rfl : x = e := by simpa using h
      refine ⟨mem_cons_self, by simpa using hx, fun y hy _ => ?_⟩
      rcases mem_cons.mp hy with rfl | hy
      · exact le_refl _
      · exact le_of_lt (hhead y hy)
    next hx =>
      obtain ⟨hmem, hk, hmin⟩ := ih htail h
      refine ⟨mem_cons_of_mem x hmem, hk, fun y hy hky => ?_⟩
      rcases mem_cons.mp hy with rfl | hy
      · simp [hky] at hx
      · exact hmin y hy hky

theorem head_le (h : m.entries.head? = some e) : e ∈ m.entries ∧ ∀ x ∈ m.entries, e.1 ≤ x.1 := by
  obtain ⟨l, hl⟩ := m
  cases l with
  | nil => simp at h
  | cons x l =>
    obtain rfl : x = e := by simpa using h
    refine ⟨mem_cons_self, fun y hy => ?_⟩
    rcases mem_cons.mp hy with rfl | hy
    · exact le_refl _
    · exact le_of_lt ((pairwise_cons.mp hl).1 y hy)

theorem isNext_of_next (h : m.next k = some e) : e ∈ m.entries ∧ IsNext m.HasKey k e.1 := by
  rw [next, Option.or_eq_some_iff] at h
  rcases h with h | ⟨hnone, h⟩
  · obtain ⟨hmem, hk, hmin⟩ := lowerBound_some h
    exact ⟨hmem, ⟨e.2, hmem⟩, .inl ⟨hk, fun q ⟨v, hq⟩ hkq => hmin (q, v) hq hkq⟩⟩
  obtain ⟨hmem, hmin⟩ := head_le h
  refine ⟨hmem, ⟨e.2, hmem⟩, .inr ⟨fun q ⟨v, hq⟩ => ?_, fun q ⟨v, hq⟩ => hmin (q, v) hq⟩⟩
  have hlt := find?_eq_none.mp hnone (q, v) hq
  simpa using hlt

theorem next_isSome (hne : m.entries ≠ []) (k : α) : ∃ e, m.next k = some e := by
  obtain ⟨x, l, hl⟩ := exists_cons_of_ne_nil hne
  cases hb : m.lowerBound k with
  | some e => exact ⟨e, by simp [next, hb]⟩
  | none => exact ⟨x, by simp [next, hb, hl]⟩

theorem next_eq_some_iff : m.next k = some e ↔ e ∈ m.entries ∧ IsNext m.HasKey k e.1 := by
  refine ⟨isNext_of_next, fun ⟨hmem, hnext⟩ => ?_⟩
  obtain ⟨e', he'⟩ := next_isSome (ne_nil_of_mem hmem) k
  obtain ⟨hmem', hnext'⟩ := isNext_of_next he'
  rw [he', eq_of_key_eq hmem hmem' (hnext.unique hnext')]

/-- Fewer entries: the successor stays if it is still there. -/
theorem next_of_subset (hsub : ∀ x ∈ m.entries, x ∈ m'.entries) (h : m'.next k = some e)
    (he : e ∈ m.entries) : m.next k = some e := by
  obtain ⟨-, hnext⟩ := isNext_of_next h
  exact next_eq_some_iff.mpr ⟨he, hnext.of_subset (fun p ⟨v, hv⟩ => ⟨v, hsub _ hv⟩) ⟨e.2, he⟩⟩

theorem mem_foldl_insert {v : β} : e ∈ (ks.foldl (fun m k => m.insert k v) m).entries ↔
      (e.1 ∈ ks ∧ e.2 = v) ∨ (e ∈ m.entries ∧ e.1 ∉ ks) := by
  induction ks generalizing m with
  | nil => simp
  | cons k ks ih =>
    rw [foldl_cons, ih, mem_insert, mem_cons]
    constructor
    · rintro (⟨hk, hv⟩ | ⟨rfl | ⟨he, hne⟩, hnot⟩)
      · exact .inl ⟨.inr hk, hv⟩
      · exact .inl ⟨.inl rfl, rfl⟩
      · exact .inr ⟨he, fun h => h.elim hne hnot⟩
    rintro (⟨hk, hv⟩ | ⟨he, hnot⟩)
    · by_cases hin : e.1 ∈ ks
      · exact .inl ⟨hin, hv⟩
      · refine .inr ⟨.inl ?_, hin⟩
        exact Prod.ext (hk.resolve_right hin) hv
    · exact .inr ⟨.inr ⟨he, fun h => hnot (.inl h)⟩, fun h => hnot (.inr h)⟩

theorem mem_foldl_erase :
    e ∈ (ks.foldl (fun m k => m.erase k) m).entries ↔ e ∈ m.entries ∧ e.1 ∉ ks := by
  induction ks generalizing m with
  | nil => simp
  | cons k ks ih =>
    rw [foldl_cons, ih, mem_erase, mem_cons]
    constructor
    · rintro ⟨⟨he, hne⟩, hnot⟩
      exact ⟨he, fun h => h.elim hne hnot⟩
    · rintro ⟨he, hnot⟩
      exact ⟨⟨he, fun h => hnot (.inl h)⟩, fun h => hnot (.inr h)⟩

end

end SortedMap

end Zepto.Lib
