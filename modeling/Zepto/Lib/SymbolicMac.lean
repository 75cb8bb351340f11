import Zepto.Lib.Bytes

/-!
# Message authentication codes, symbolically

A byte on the wire is a plain one or a byte of the code of a text under a key. The code of a text
under a key is a value of its own (`macOf_inj`), which can only be copied from where it was seen or
computed with the key (`Derivable`).
-/

namespace Zepto.Lib

inductive SymByte (Key : Type)
  | plain (b : Byte)
  | mac (key : Key) (text : List (SymByte Key)) (i : Nat)

namespace SymByte

variable {Key : Type}

mutual

/-- Equality of bytes, which compares the texts of two codes. -/
def decEq [DecidableEq Key] : (a b : SymByte Key) → Decidable (a = b)
  | plain b, plain c =>
    if h : b = c then isTrue (by rw [h]) else isFalse (fun e => h (by injection e))
  | plain _, mac .. | mac .., plain _ => isFalse nofun
  | mac key text i, mac key' text' j =>
    match decEqList text text' with
    | isTrue ht =>
      if h : key = key' ∧ i = j then isTrue (by rw [h.1, h.2, ht])
      else isFalse (fun e => h (by injection e with e1 _ e2; exact ⟨e1, e2⟩))
    | isFalse ht => isFalse (fun e => ht (by injection e))

def decEqList [DecidableEq Key] : (l l' : List (SymByte Key)) → Decidable (l = l')
  | [], [] => isTrue rfl
  | [], _ :: _ | _ :: _, [] => isFalse nofun
  | a :: l, b :: l' =>
    match decEq a b, decEqList l l' with
    | isTrue h, isTrue h' => isTrue (by rw [h, h'])
    | isFalse h, _ | _, isFalse h => isFalse (fun e => h (by injection e))

end

instance [DecidableEq Key] : DecidableEq (SymByte Key) := decEq

/-- What an attacker can send: plain bytes, those of the wire, codes under keys it knows. -/
inductive Derivable (known : Key → Prop) (wire : List (SymByte Key)) : SymByte Key → Prop
  | plain (b : Byte) : Derivable known wire (plain b)
  | seen {a : SymByte Key} : a ∈ wire → Derivable known wire a
  | compute {key : Key} {text : List (SymByte Key)} (i : Nat) : known key →
      (∀ a ∈ text, Derivable known wire a) → Derivable known wire (mac key text i)

/-- A code under a key the attacker does not know was seen before. -/
theorem Derivable.mem_wire {known : Key → Prop} {wire : List (SymByte Key)} {key : Key}
    {text : List (SymByte Key)} {i : Nat} (h : Derivable known wire (mac key text i))
    (hkey : ¬known key) : mac key text i ∈ wire := by
  cases h with
  | seen hmem => exact hmem
  | compute _ hknown => exact absurd hknown hkey

end SymByte

variable {Key : Type}

abbrev Block (Key : Type) (n : Nat) := { l : List (SymByte Key) // l.length = n }

def plainBlock {n : Nat} (v : Vector Byte n) : Block Key n :=
  ⟨v.toList.map .plain, by simp⟩

theorem plainBlock_inj {n : Nat} {v w : Vector Byte n}
    (h : (plainBlock v : Block Key n) = plainBlock w) : v = w := by
  have hlist : v.toList.map (@SymByte.plain Key) = w.toList.map .plain := congrArg Subtype.val h
  have hinj : Function.Injective (@SymByte.plain Key) := fun a b e => by injection e
  exact Vector.toList_inj.mp (List.map_injective_iff.mpr hinj hlist)

/-- The code of a text under a key, in `n` bytes. -/
def macOf (n : Nat) (key : Key) (text : List (SymByte Key)) : Block Key n :=
  ⟨(List.range n).map (.mac key text), by simp⟩

theorem macOf_inj {n : Nat} (hn : 0 < n) {key key' : Key} {text text' : List (SymByte Key)}
    (h : macOf n key text = macOf n key' text') : key = key' ∧ text = text' := by
  obtain ⟨m, rfl⟩ : ∃ m, n = m + 1 := ⟨n - 1, by omega⟩
  have hlist : (List.range (m + 1)).map (.mac key text) =
      (List.range (m + 1)).map (SymByte.mac key' text') := congrArg Subtype.val h
  rw [List.range_succ_eq_map] at hlist
  injection (List.cons.inj hlist).1 with hkey htext
  exact ⟨hkey, htext⟩

theorem mem_macOf {n : Nat} {key : Key} {text : List (SymByte Key)} {a : SymByte Key}
    (h : a ∈ (macOf n key text).1) : ∃ i, a = .mac key text i := by
  obtain ⟨i, -, rfl⟩ := List.mem_map.mp h
  exact ⟨i, rfl⟩

end Zepto.Lib
