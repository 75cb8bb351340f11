import Mathlib.Data.BitVec
import Mathlib.Logic.Function.Basic
import Zepto.Lib.Machine

/-!
# Tenant query slots

`TenantManager` counts the running queries of each tenant and refuses one over
`max_concurrent_queries`. The Flight server keeps a `TenantQuerySlotGuard` for each slot it got and
gives the slot back when the guard goes. `drop_tenant` forgets the count while guards live, so a
tenant created again under the same id can run more than its limit (`recreated_over_limit`);
`slots_within_limits` says what holds if no tenant is created so.
-/

namespace Zepto.Auth

open Zepto.Lib Function

/-- The fields of `TenantConfig` that slots depend on. -/
structure TenantConfig where
  tenantId : String
  /-- 0 is unlimited. -/
  maxConcurrentQueries : BitVec 32 := 10

structure TenantUsage where
  activeQueries : BitVec 32 := 0
  totalQueries : BitVec 64 := 0
  rejectedQueries : BitVec 64 := 0

structure TenantManager where
  tenants : String → Option TenantConfig := fun _ => none
  usage : String → Option TenantUsage := fun _ => none

namespace TenantManager

/-- `usage_[id]`: a missing entry is default-constructed. -/
def usageOf (m : TenantManager) (id : String) : TenantUsage := (m.usage id).getD {}

def setUsage (m : TenantManager) (id : String) (u : TenantUsage) : TenantManager :=
  { m with usage := update m.usage id (some u) }

def createTenant (m : TenantManager) (config : TenantConfig) : Bool × TenantManager :=
  if (m.tenants config.tenantId).isSome then (false, m)
  else
    let m := { m with tenants := update m.tenants config.tenantId (some config) }
    (true, m.setUsage config.tenantId (m.usageOf config.tenantId))

def dropTenant (m : TenantManager) (id : String) : Bool × TenantManager :=
  ((m.tenants id).isSome, ⟨update m.tenants id none, update m.usage id none⟩)

def acquireQuerySlot (m : TenantManager) (id : String) : Bool × TenantManager :=
  match m.tenants id with
  | none => (false, m)
  | some config =>
    let u := m.usageOf id
    if 0 < config.maxConcurrentQueries ∧ config.maxConcurrentQueries ≤ u.activeQueries then
      (false, m.setUsage id { u with rejectedQueries := u.rejectedQueries + 1 })
    else
      (true, m.setUsage id { u with
        activeQueries := u.activeQueries + 1, totalQueries := u.totalQueries + 1 })

def releaseQuerySlot (m : TenantManager) (id : String) : TenantManager :=
  match m.usage id with
  | none => m
  | some u =>
    if 0 < u.activeQueries then m.setUsage id { u with activeQueries := u.activeQueries - 1 } else m

variable {m : TenantManager} {id i : String}

@[simp] theorem usageOf_setUsage (u : TenantUsage) : (m.setUsage id u).usageOf id = u := by
  simp [usageOf, setUsage]

theorem usageOf_setUsage_ne (h : i ≠ id) (u : TenantUsage) :
    (m.setUsage id u).usageOf i = m.usageOf i := by
  simp [usageOf, setUsage, update_of_ne h]

theorem releaseQuerySlot_eq (m : TenantManager) (id : String) :
    m.releaseQuerySlot id = if 0 < (m.usageOf id).activeQueries then
      m.setUsage id { m.usageOf id with activeQueries := (m.usageOf id).activeQueries - 1 }
    else m := by
  unfold releaseQuerySlot usageOf
  cases m.usage id with
  | none | some u => rfl

end TenantManager

/-- The manager, and the tenant of each guard that lives. -/
structure Slots where
  manager : TenantManager := {}
  held : List String := []

inductive SlotEvent where
  | create (config : TenantConfig)
  | drop (id : String)
  | acquire (id : String)
  /-- A guard of the tenant goes. -/
  | release (id : String)

namespace Slots

def next (s : Slots) : SlotEvent → Slots
  | .create config => { s with manager := (s.manager.createTenant config).2 }
  | .drop id => { s with manager := (s.manager.dropTenant id).2 }
  | .acquire id =>
    let (ok, m) := s.manager.acquireQuerySlot id
    ⟨m, if ok then id :: s.held else s.held⟩
  | .release id =>
    if id ∈ s.held then ⟨s.manager.releaseQuerySlot id, s.held.erase id⟩ else s

/-- No tenant has more slots than its configuration allows. -/
def WithinLimits (s : Slots) : Prop :=
  ∀ id config, s.manager.tenants id = some config → 0 < config.maxConcurrentQueries →
    s.held.count id ≤ config.maxConcurrentQueries.toNat

/-- A new tenant with a limit does not take the id of one whose queries still run. -/
def FreshTenants (s : Slots) : SlotEvent → Prop
  | .create config => (s.manager.tenants config.tenantId).isSome ∨
      config.maxConcurrentQueries = 0 ∨ config.tenantId ∉ s.held
  | _ => True

/-- An unknown tenant has no count; that of a tenant with a limit is the number of its slots. -/
def Counted (config : Option TenantConfig) (active : BitVec 32) (slots : Nat) : Prop :=
  match config with
  | none => active = 0
  | some config => 0 < config.maxConcurrentQueries →
      active.toNat = slots ∧ slots ≤ config.maxConcurrentQueries.toNat

def AllCounted (s : Slots) : Prop :=
  ∀ id, Counted (s.manager.tenants id) (s.manager.usageOf id).activeQueries (s.held.count id)

open TenantManager in
theorem allCounted_next {s : Slots} {e : SlotEvent} (h : s.AllCounted) (he : s.FreshTenants e) :
    (s.next e).AllCounted := by
  intro i
  have hi := h i
  cases e with
  | create config =>
    by_cases hknown : (s.manager.tenants config.tenantId).isSome = true
    · rwa [next, createTenant, if_pos hknown]
    simp only [next, createTenant, if_neg hknown]
    by_cases hid : i = config.tenantId
    · subst hid
      rw [Option.not_isSome_iff_eq_none.mp hknown] at hi
      rw [usageOf_setUsage]
      show Counted (update s.manager.tenants _ _ _) _ _
      rw [update_self]
      intro hpos
      obtain hold | hzero | hidle := he
      · exact absurd hold hknown
      · rw [hzero] at hpos
        cases hpos
      · rw [List.count_eq_zero.mpr hidle]
        exact ⟨congrArg BitVec.toNat hi, Nat.zero_le _⟩
    · rw [usageOf_setUsage_ne hid]
      show Counted (update s.manager.tenants _ _ _) _ _
      rwa [update_of_ne hid]
  | drop id =>
    simp only [next, dropTenant, usageOf]
    by_cases hid : i = id
    · subst hid
      rw [update_self, update_self]
      rfl
    · rwa [update_of_ne hid, update_of_ne hid]
  | acquire id =>
    cases hconfig : s.manager.tenants id with
    | none => simpa [next, acquireQuerySlot, hconfig] using hi
    | some config =>
      simp only [next, acquireQuerySlot, hconfig]
      by_cases hid : i = id
      swap
      · split
        · rwa [usageOf_setUsage_ne hid]
        · rwa [usageOf_setUsage_ne hid, if_pos rfl, List.count_cons_of_ne (symm hid)]
      subst hid
      split
      · rwa [usageOf_setUsage]
      rename_i hroom
      rw [hconfig] at hi
      rw [usageOf_setUsage, setUsage, hconfig, if_pos rfl, List.count_cons_self]
      intro hpos
      have hlt := BitVec.not_le.mp fun hle => hroom ⟨hpos, hle⟩
      obtain ⟨hcount, hle⟩ := hi hpos
      bv_omega
  | release id =>
    simp only [next, releaseQuerySlot_eq]
    split
    swap
    · exact hi
    rename_i hheld
    by_cases hid : i = id
    swap
    · rw [List.count_erase_of_ne hid]
      split
      · rwa [usageOf_setUsage_ne hid]
      · exact hi
    subst hid
    rw [List.count_erase_self]
    cases hconfig : s.manager.tenants i with
    | none =>
      rw [hconfig] at hi
      have hzero : (s.manager.usageOf i).activeQueries = 0 := hi
      rw [if_neg (by simp [hzero]), hconfig]
      exact hi
    | some config =>
      rw [hconfig] at hi
      split
      · rw [usageOf_setUsage, setUsage, hconfig]
        intro hlimit
        obtain ⟨hcount, hle⟩ := hi hlimit
        bv_omega
      · rw [hconfig]
        intro hlimit
        obtain ⟨hcount, hle⟩ := hi hlimit
        bv_omega

end Slots

def slots : Machine Slots SlotEvent Unit where
  step s e := ((), s.next e)

/-- If no tenant with a limit takes the id of one whose queries still run, no tenant ever has more
slots than its limit. -/
theorem slots_within_limits {events : List SlotEvent}
    (hrun : slots.Admits Slots.FreshTenants {} events) : (slots.run {} events).WithinLimits := by
  have hstart : Slots.AllCounted {} := fun _ => rfl
  have hcounted := slots.invariant_admits (P := Slots.AllCounted)
    (fun _ _ h he => Slots.allCounted_next h he) hstart hrun
  intro id config hconfig hpos
  have hid := hcounted id
  rw [hconfig] at hid
  exact (hid hpos).2

/-- A limit of one: the second query is refused, and runs when the first has ended. -/
theorem slots_within_limits_one :
    let s := slots.run {} [.create ⟨"t", 1⟩, .acquire "t", .acquire "t", .release "t", .acquire "t"]
    s.held = ["t"] ∧ s.WithinLimits :=
  ⟨by decide, slots_within_limits ⟨.inr (.inr (by decide)), trivial, trivial, trivial, trivial,
    trivial⟩⟩

/-- Created again while its query runs, a tenant with a limit of one has two slots. -/
theorem recreated_over_limit : ¬(slots.run {} [.create ⟨"t", 1⟩, .acquire "t", .drop "t",
    .create ⟨"t", 1⟩, .acquire "t"]).WithinLimits := by
  intro h
  have hle := h "t" ⟨"t", 1⟩ rfl (by decide)
  exact absurd hle (by decide)

end Zepto.Auth
