import Mathlib.Data.List.Count
import Mathlib.Data.List.Perm.Basic
import Mathlib.Data.List.Nodup

/-!
# Loops over groups of rows

A list of groups, each with its own elements, is flattened to pairs of a group and an element
(`tagged`). A loop in a monad of failures whose steps all succeed is the loop of their results.
-/

namespace Zepto.Lib

open List

section

variable {α β : Type}

/-- The elements of all groups, each with its group. -/
def tagged (gs : List α) (f : α → List β) : List (α × β) := gs.flatMap fun g => (f g).map (.mk g)

@[simp] theorem tagged_nil (f : α → List β) : tagged [] f = [] := rfl

@[simp] theorem tagged_cons (g : α) (gs : List α) (f : α → List β) :
    tagged (g :: gs) f = (f g).map (.mk g) ++ tagged gs f := rfl

theorem mem_tagged {gs : List α} {f : α → List β} {g : α} {x : β} :
    (g, x) ∈ tagged gs f ↔ g ∈ gs ∧ x ∈ f g := by
  simp only [tagged, mem_flatMap, mem_map, Prod.mk.injEq]
  constructor
  · rintro ⟨_, hg, _, hx, rfl, rfl⟩
    exact ⟨hg, hx⟩
  · rintro ⟨hg, hx⟩
    exact ⟨g, hg, x, hx, rfl, rfl⟩

variable [DecidableEq α] [DecidableEq β]

theorem count_map_mk (g h : α) (xs : List β) (x : β) :
    (xs.map (.mk g)).count (h, x) = if g = h then xs.count x else 0 := by
  induction xs with
  | nil => simp
  | cons y ys ih =>
    rw [map_cons, count_cons, ih, count_cons]
    by_cases hg : g = h <;> simp [hg]

theorem count_tagged (gs : List α) (f : α → List β) (g : α) (x : β) :
    (tagged gs f).count (g, x) = gs.count g * (f g).count x := by
  induction gs with
  | nil => simp
  | cons h hs ih =>
    rw [tagged_cons, count_append, ih, count_map_mk]
    by_cases hg : h = g
    · subst hg
      simp [Nat.add_mul, Nat.add_comm]
    · simp [hg]

end

section

variable {ε α β σ : Type}

variable {g : σ → α → σ} {l : List α}

theorem foldlM_ok {f : σ → α → Except ε σ} (h : ∀ s, ∀ a ∈ l, f s a = .ok (g s a)) (s : σ) :
    l.foldlM f s = .ok (l.foldl g s) := by
  induction l generalizing s with
  | nil => rfl
  | cons a l ih =>
    rw [foldlM_cons, h s a mem_cons_self]
    exact ih (fun s b hb => h s b (mem_cons_of_mem a hb)) (g s a)

theorem loop_rows {rows : Except ε (List β × Nat)} {sel : List β} {n : Nat}
    {f : σ → β → Except ε σ} {g : σ → β → σ} (hrows : rows = .ok (sel, n))
    (h : ∀ s, ∀ b ∈ sel, f s b = .ok (g s b)) (s : σ) (k : Nat) :
    (do
      let (sel, scanned) ← rows
      let s ← sel.foldlM f s
      pure (s, k + scanned) : Except ε (σ × Nat)) = .ok (sel.foldl g s, k + n) := by
  rw [hrows]
  change (sel.foldlM f s >>= fun s => pure (s, k + n)) = _
  rw [foldlM_ok h s]
  rfl

theorem foldlM_counted {body : σ × Nat → α → Except ε (σ × Nat)}
    (h : ∀ acc, ∀ a ∈ l, ∃ n, body acc a = .ok (g acc.1 a, n)) (acc : σ × Nat) :
    ∃ n, l.foldlM body acc = .ok (l.foldl g acc.1, n) := by
  induction l generalizing acc with
  | nil => exact ⟨acc.2, rfl⟩
  | cons a l ih =>
    obtain ⟨n, hn⟩ := h acc a mem_cons_self
    rw [foldlM_cons, hn]
    exact ih (fun acc b hb => h acc b (mem_cons_of_mem a hb)) (g acc.1 a, n)

/-- A loop over groups and the rows of each is the loop over all rows. -/
theorem foldl_tagged (rows : α → List β) (step : α → σ → β → σ) (l : List α) (s : σ) :
    l.foldl (fun s a => (rows a).foldl (step a) s) s =
      (tagged l rows).foldl (fun s r => step r.1 s r.2) s := by
  induction l generalizing s with
  | nil => rfl
  | cons a l ih => rw [foldl_cons, ih, tagged_cons, foldl_append, foldl_map]

theorem mapM_ok {m : Type → Type} [Monad m] [LawfulMonad m] {f : α → m β} {g : α → β}
    (h : ∀ a ∈ l, f a = pure (g a)) : l.mapM f = pure (l.map g) := by
  induction l with
  | nil => simp
  | cons a l ih =>
    rw [forall_mem_cons] at h
    simp [h.1, ih h.2]

theorem mapM_range {f : Nat → Except ε α} (h : ∀ j a, l[j]? = some a → f j = .ok a) :
    (range l.length).mapM f = .ok l := by
  cases l with
  | nil => rfl
  | cons b l =>
    have hget (j : Nat) (hj : j ∈ range (b :: l).length) : f j = .ok ((b :: l).getD j b) := by
      have hlt := mem_range.mp hj
      rw [getD_eq_getElem?_getD, getElem?_eq_getElem hlt]
      exact h j _ (getElem?_eq_getElem hlt)
    rw [mapM_ok hget]
    congr 1
    refine ext_getElem (by simp) fun j h1 h2 => ?_
    rw [getElem_map, getElem_range, getD_eq_getElem?_getD, getElem?_eq_getElem h2, Option.getD_some]

theorem length_mapM {f : α → Except ε β} {ys : List β} (h : l.mapM f = .ok ys) :
    ys.length = l.length := by
  induction l generalizing ys with
  | nil =>
    cases h
    rfl
  | cons a l ih =>
    rw [mapM_cons] at h
    match f a, hl : l.mapM f, h with
    | .ok y, .ok ys', h =>
      cases h
      simpa using ih hl

end

end Zepto.Lib
