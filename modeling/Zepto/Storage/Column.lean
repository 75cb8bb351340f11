import Zepto.Common.Types
import Zepto.Lib.Memory

/-!
# Column vectors

A `ColumnVector` is a window on the byte memory of its partition: `size` elements of the column
type's width from address `data`, in an allocation of `capacity` elements. `readI64` and
`readF64` are the typed readers; `rawI64` is the element of `as_span<int64_t>`, which steps by
eight bytes whatever the type is.
-/

namespace Zepto.Storage

open Zepto.Lib

inductive ColumnType where
  | int32
  | int64
  | float32
  | float64
  | timestampNs
  | symbol
  | bool
  | string
  deriving DecidableEq

namespace ColumnType

/-- `column_type_size`. -/
def size : ColumnType → Nat
  | int32 => 4
  | int64 => 8
  | float32 => 4
  | float64 | timestampNs => 8
  | symbol => 4
  | bool => 1
  | string => 4

def isFloat : ColumnType → Bool
  | float32 | float64 => true
  | _ => false

/-- The integer an element with the given bits is read as. -/
def toI64 : ColumnType → Nat → Int
  | int32, x => signed 32 x
  | int64, x | timestampNs, x => signed 64 x
  | float32, x => intOfDouble (doubleOfFloat (.ofBits (.ofNat x)))
  | float64, x => intOfDouble (doubleOfBits x)
  | symbol, x | string, x | bool, x => x

/-- The double an element with the given bits is read as. -/
def toF64 : ColumnType → Nat → Float
  | float32, x => doubleOfFloat (.ofBits (.ofNat x))
  | float64, x => doubleOfBits x
  | t, x => doubleOfInt (t.toI64 x)

/-- The bits of an element that holds the given number. -/
def ofInt : ColumnType → Int → Nat
  | int32, v => unsigned 32 v
  | int64, v | timestampNs, v => unsigned 64 v
  | float32, v => (Float32.ofModel (.ofInt v)).toBits.toNat
  | float64, v => (doubleOfInt v).toBits.toNat
  | symbol, v | string, v => unsigned 32 v
  | bool, v => if v = 0 then 0 else 1

theorem size_pos (t : ColumnType) : 0 < t.size := by
  cases t <;> decide

end ColumnType

structure ColumnVector where
  name : String
  type : ColumnType
  /-- `data_`, absent before an allocation succeeded. -/
  data : Option Nat
  size : Nat
  capacity : Nat
  deriving DecidableEq

namespace ColumnVector

def addr (c : ColumnVector) : Nat := c.data.getD 0

/-- The bits of element `i`, taken with the width of the column's type. -/
def bits (c : ColumnVector) (m : Mem) (i : Nat) : Nat :=
  load m (c.addr + c.type.size * i) c.type.size

/-- Element `i` of `as_span<int64_t>`. -/
def rawI64 (c : ColumnVector) (m : Mem) (i : Nat) : Int := signed 64 (load m (c.addr + 8 * i) 8)

/-- The bits of row `i`, zero past the end. -/
def cell (c : ColumnVector) (m : Mem) (i : Nat) : Nat :=
  if c.size ≤ i ∨ c.data = none then 0 else c.bits m i

/-- `read_column_as_i64`. -/
def readI64 (c : ColumnVector) (m : Mem) (i : Nat) : Int :=
  if c.size ≤ i ∨ c.data = none then 0 else c.type.toI64 (c.bits m i)

/-- `read_column_as_f64`. -/
def readF64 (c : ColumnVector) (m : Mem) (i : Nat) : Float :=
  if c.size ≤ i ∨ c.data = none then doubleOfInt 0 else c.type.toF64 (c.bits m i)

/-- `set_size`: shrinks, never grows. -/
def setSize (c : ColumnVector) (n : Nat) : ColumnVector :=
  if n ≤ c.size then { c with size := n } else c

def stop (c : ColumnVector) : Nat := c.addr + c.type.size * c.capacity

def Owns (c : ColumnVector) (x : Nat) : Prop := c.addr ≤ x ∧ x < c.stop

/-- What the arena guarantees: the rows fit the allocation, none without data, and fewer than a
32-bit row number can name. -/
structure Fits (c : ColumnVector) : Prop where
  size_le : c.size ≤ c.capacity
  null : c.data = none → c.capacity = 0
  size_lt : c.size < 2 ^ 32

theorem Fits.data_ne_none {c : ColumnVector} {i : Nat} (h : c.Fits) (hi : i < c.size) :
    c.data ≠ none := by
  intro hnone
  have hcap := h.null hnone
  have := h.size_le
  omega

def Apart (a b : ColumnVector) : Prop := ∀ x, ¬(a.Owns x ∧ b.Owns x)

theorem setSize_fits {c : ColumnVector} (h : c.Fits) (n : Nat) : (c.setSize n).Fits := by
  unfold setSize
  split
  · exact ⟨by have := h.size_le; simp only; omega, h.null, by have := h.size_lt; simp only; omega⟩
  · exact h

section

variable (c : ColumnVector) (n : Nat)

@[simp] theorem setSize_name : (c.setSize n).name = c.name := by
  unfold setSize; split <;> rfl

@[simp] theorem setSize_type : (c.setSize n).type = c.type := by
  unfold setSize; split <;> rfl

@[simp] theorem setSize_data : (c.setSize n).data = c.data := by
  unfold setSize; split <;> rfl

@[simp] theorem setSize_capacity : (c.setSize n).capacity = c.capacity := by
  unfold setSize; split <;> rfl

theorem setSize_size : (c.setSize n).size = min n c.size := by
  unfold setSize
  split
  · rw [min_eq_left ‹_›]
  · omega

@[simp] theorem setSize_addr : (c.setSize n).addr = c.addr := by
  simp [addr]

@[simp] theorem setSize_stop : (c.setSize n).stop = c.stop := by
  simp [stop]

end

theorem setSize_owns (c : ColumnVector) (n x : Nat) : (c.setSize n).Owns x ↔ c.Owns x := by
  simp [Owns]

end ColumnVector

end Zepto.Storage
