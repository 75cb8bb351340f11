import Mathlib.Data.List.Basic

/-!
# Deterministic machines, invariants and refinement

A `Machine` answers each operation with an output and moves to the next state. `run` is the state
after a list of operations and `trace` the outputs. `invariant_run` is the induction over runs,
`invariant_admits` over those whose operations meet a condition; `trace_eq` says that machines
related by an abstraction function that every step respects have the same outputs.
-/

namespace Zepto.Lib

/-- A machine that answers operations one after another. -/
structure Machine (St Op Out : Type*) where
  step : St → Op → Out × St

namespace Machine

variable {St St' Op Out : Type*}

section

variable {P : St → Prop} {s : St} {G : St → Op → Prop}

def run (m : Machine St Op Out) (s : St) (ops : List Op) : St :=
  ops.foldl (fun s op => (m.step s op).2) s

def trace (m : Machine St Op Out) : St → List Op → List Out
  | _, [] => []
  | s, op :: ops => (m.step s op).1 :: trace m (m.step s op).2 ops

/-- A property every step keeps holds after every run. -/
theorem invariant_run (m : Machine St Op Out) (hstep : ∀ s op, P s → P (m.step s op).2) (h0 : P s)
    (ops : List Op) : P (m.run s ops) := by
  induction ops generalizing s with
  | nil => exact h0
  | cons op ops ih => exact ih (hstep s op h0)

/-- Every operation meets the condition in the state it finds. -/
def Admits (m : Machine St Op Out) (G : St → Op → Prop) : St → List Op → Prop
  | _, [] => True
  | s, op :: ops => G s op ∧ Admits m G (m.step s op).2 ops

section

variable (m : Machine St Op Out)

/-- A property every admitted step keeps holds after every admitted run. -/
theorem invariant_admits (hstep : ∀ s op, P s → G s op → P (m.step s op).2)
    (h0 : P s) {ops : List Op} (hops : m.Admits G s ops) : P (m.run s ops) := by
  induction ops generalizing s with
  | nil => exact h0
  | cons op ops ih => exact ih (hstep s op h0 hops.1) hops.2

theorem run_append (s : St) (ops ops' : List Op) :
    m.run s (ops ++ ops') = m.run (m.run s ops) ops' := List.foldl_append

theorem admits_append (s : St) (ops ops' : List Op) :
    m.Admits G s (ops ++ ops') ↔ m.Admits G s ops ∧ m.Admits G (m.run s ops) ops' := by
  induction ops generalizing s with
  | nil => exact ⟨fun h => ⟨trivial, h⟩, fun h => h.2⟩
  | cons op ops ih =>
    show G s op ∧ m.Admits G (m.step s op).2 (ops ++ ops') ↔ _
    rw [ih, ← and_assoc]
    rfl

/-- A machine whose steps commute with `abs` under an invariant has the abstract outputs. -/
theorem trace_eq (m' : Machine St' Op Out) (abs : St → St')
    {P : St → Prop} (hinv : ∀ s op, P s → P (m.step s op).2)
    (hout : ∀ s op, P s → (m.step s op).1 = (m'.step (abs s) op).1)
    (hnext : ∀ s op, P s → abs (m.step s op).2 = (m'.step (abs s) op).2)
    {s : St} (h0 : P s) (ops : List Op) : m.trace s ops = m'.trace (abs s) ops := by
  induction ops generalizing s with
  | nil => rfl
  | cons op ops ih =>
    simp only [trace]
    rw [hout s op h0, ← hnext s op h0, ih (hinv s op h0)]

end

end

end Machine

end Zepto.Lib
