import Mathlib.Data.List.AList

/-!
# File systems and crashes

A file system maps paths to directories and files. Operations take effect one after another, so a
crash leaves the state after some first operations of a program. An operation changes the paths it
touches and no others (`lookup_run_of_untouched`), and `mkdir` only makes what is not there
(`lookup_run_of_kept`). A file is put in place under a temporary name first (`atomicWrite`).
-/

namespace Zepto.Lib

open List AList

/-- A path component, and the text of a file. -/
abbrev Text := List Char

/-- A path, from the root of the tree that is looked at. -/
abbrev Path := List Text

inductive FsEntry where
  | dir
  | file (text : Text)
  deriving DecidableEq

abbrev FileSystem := AList (fun _ : Path => FsEntry)

inductive FsOp where
  | mkdir (p : Path)
  | write (p : Path) (text : Text)
  | rename (p q : Path)
  | remove (p : Path)
  deriving DecidableEq

namespace FsOp

/-- The effect of an operation. `mkdir` leaves alone what is there. -/
def apply (fs : FileSystem) : FsOp → FileSystem
  | mkdir p => if fs.lookup p = none then fs.insert p .dir else fs
  | write p text => fs.insert p (.file text)
  | rename p q =>
    match fs.lookup p with
    | some e => (fs.erase p).insert q e
    | none => fs
  | remove p => fs.erase p

def touches : FsOp → List Path
  | mkdir p | write p _ => [p]
  | rename p q => [p, q]
  | remove p => [p]

/-- The operation is no `mkdir`. -/
def overwrites : FsOp → List Path
  | mkdir _ => []
  | op => op.touches

end FsOp

namespace FileSystem

def run (fs : FileSystem) (ops : List FsOp) : FileSystem := ops.foldl FsOp.apply fs

def children (fs : FileSystem) (p : Path) : List Path :=
  fs.keys.filter fun q => q ≠ [] ∧ q.dropLast = p

/-- The order in which `remove_all` takes away the entries it finds. -/
structure RemovalOrder where
  list : List Path → List Path
  perm : ∀ l, (list l).Perm l

/-- The operations of `remove_all`. -/
def removeAll (order : RemovalOrder) (fs : FileSystem) (p : Path) : List FsOp :=
  (order.list (fs.keys.filter fun q => p.isPrefixOf q)).map .remove

/-- A file written under a temporary name, one text after another, and renamed. -/
def atomicWrite (temporary destination : Path) (texts : List Text) : List FsOp :=
  texts.map (.write temporary) ++ [.rename temporary destination]

/-- The same given up after some texts: the temporary file is removed. -/
def abandonedWrite (temporary : Path) (texts : List Text) (done : Nat) : List FsOp :=
  match texts.take done with
  | [] => []
  | texts => texts.map (.write temporary) ++ [.remove temporary]

variable {fs : FileSystem} {op : FsOp} {ops : List FsOp} {p q : Path}

theorem run_append (fs : FileSystem) (ops ops' : List FsOp) :
    fs.run (ops ++ ops') = (fs.run ops).run ops' := foldl_append

theorem mem_touches_of_overwrites (h : p ∈ op.overwrites) : p ∈ op.touches := by
  cases op with
  | mkdir q => cases h
  | write q text | rename q q' | remove q => exact h

theorem prefix_append_cases {done a b : List FsOp} (h : done <+: a ++ b) :
    done <+: a ∨ ∃ t, t <+: b ∧ done = a ++ t := by
  rcases prefix_or_prefix_of_prefix h (prefix_append a b) with h' | ⟨t, rfl⟩
  · exact .inl h'
  · exact .inr ⟨t, (prefix_append_right_inj a).mp h, rfl⟩

theorem mem_children : q ∈ fs.children p ↔ fs.lookup q ≠ none ∧ q ≠ [] ∧ q.dropLast = p := by
  rw [children, mem_filter, ← AList.mem_keys, ← lookup_isSome, Option.isSome_iff_ne_none]
  simp

theorem mem_removeAll {order : RemovalOrder} :
    op ∈ removeAll order fs p ↔ ∃ q, op = .remove q ∧ fs.lookup q ≠ none ∧ p <+: q := by
  rw [removeAll, mem_map]
  refine exists_congr fun q => ?_
  rw [(order.perm _).mem_iff, mem_filter, ← AList.mem_keys, ← lookup_isSome,
    Option.isSome_iff_ne_none, isPrefixOf_iff_prefix, and_comm, eq_comm]

theorem lookup_apply_of_untouched (h : q ∉ op.touches) : (op.apply fs).lookup q = fs.lookup q := by
  cases op with
  | mkdir p =>
    simp only [FsOp.touches, mem_singleton] at h
    simp only [FsOp.apply]
    split
    · exact lookup_insert_ne h
    · rfl
  | write p text =>
    simp only [FsOp.touches, mem_singleton] at h
    exact lookup_insert_ne h
  | rename p p' =>
    simp only [FsOp.touches, mem_cons, not_mem_nil, or_false, not_or] at h
    simp only [FsOp.apply]
    split
    · rw [lookup_insert_ne h.2, lookup_erase_ne h.1]
    · rfl
  | remove p =>
    simp only [FsOp.touches, mem_singleton] at h
    exact lookup_erase_ne h

/-- A path that no operation touches keeps its entry. -/
theorem lookup_run_of_untouched (h : ∀ op ∈ ops, q ∉ op.touches) :
    (fs.run ops).lookup q = fs.lookup q := by
  induction ops generalizing fs with
  | nil => rfl
  | cons op ops ih =>
    rw [forall_mem_cons] at h
    show (run (op.apply fs) ops).lookup q = _
    rw [ih h.2, lookup_apply_of_untouched h.1]

/-- A path that only `mkdir` touches keeps its entry, or is a new directory. -/
theorem lookup_run_of_kept (h : ∀ op ∈ ops, q ∉ op.overwrites) : (fs.run ops).lookup q =
      if fs.lookup q = none ∧ .mkdir q ∈ ops then some .dir else fs.lookup q := by
  induction ops generalizing fs with
  | nil => simp [run]
  | cons op ops ih =>
    rw [forall_mem_cons] at h
    show (run (op.apply fs) ops).lookup q = _
    rw [ih h.2]
    by_cases hop : op = .mkdir q
    · subst hop
      by_cases hq : fs.lookup q = none
      all_goals simp [FsOp.apply, hq]
    have hun : q ∉ op.touches := by
      cases op with
      | mkdir p =>
        intro hp
        rw [FsOp.touches, mem_singleton] at hp
        exact hop (by rw [hp])
      | write p text | rename p p' | remove p => exact h.1
    rw [lookup_apply_of_untouched hun]
    simp [Ne.symm hop]

theorem lookup_run_of_some {e : FsEntry} (hq : fs.lookup q = some e)
    (h : ∀ op ∈ ops, q ∉ op.overwrites) : (fs.run ops).lookup q = some e := by
  rw [lookup_run_of_kept h, hq]
  rfl

/-- What is taken away while nothing is made is gone. -/
theorem lookup_run_of_removed (h : ∀ op ∈ ops, ∃ p, op = .remove p)
    (hq : fs.lookup q = none ∨ .remove q ∈ ops) : (fs.run ops).lookup q = none := by
  induction ops generalizing fs with
  | nil => simpa [run] using hq
  | cons op ops ih =>
    rw [forall_mem_cons] at h
    obtain ⟨p, rfl⟩ := h.1
    refine ih h.2 ?_
    by_cases hp : q = p
    · subst hp
      exact .inl (lookup_erase _ _)
    · show (fs.erase p).lookup q = none ∨ _
      simpa [hp] using hq

section Atomic

variable {temporary destination : Path} {texts : List Text}

theorem touches_of_mem_atomicWrite (h : op ∈ atomicWrite temporary destination texts)
    (hq : q ∈ op.touches) : q = temporary ∨ q = destination := by
  rw [atomicWrite, mem_append, mem_map, mem_singleton] at h
  obtain ⟨_, -, rfl⟩ | rfl := h
  · exact .inl (mem_singleton.mp hq)
  · simpa [FsOp.touches] using hq

theorem touches_of_mem_abandonedWrite {done : Nat} (h : op ∈ abandonedWrite temporary texts done)
    (hq : q ∈ op.touches) : q = temporary := by
  unfold abandonedWrite at h
  split at h
  · cases h
  · rw [mem_append, mem_map, mem_singleton] at h
    obtain ⟨_, -, rfl⟩ | rfl := h <;> exact mem_singleton.mp hq

theorem lookup_atomicWrite (fs : FileSystem) (temporary destination : Path) (texts : List Text)
    (text : Text) :
    (fs.run (atomicWrite temporary destination (texts ++ [text]))).lookup destination =
      some (.file text) := by
  rw [atomicWrite, map_append, append_assoc, run_append]
  generalize run fs _ = fs
  show ((FsOp.rename temporary destination).apply (fs.insert temporary _)).lookup _ = _
  rw [FsOp.apply, lookup_insert]
  exact lookup_insert _

theorem lookup_abandonedWrite {done : Nat} (h : fs.lookup temporary = none) :
    (fs.run (abandonedWrite temporary texts done)).lookup temporary = none := by
  unfold abandonedWrite
  split
  · exact h
  · rw [run_append]
    exact lookup_erase _ _

end Atomic

end FileSystem

end Zepto.Lib
