import Zepto.Lib.Machine
import Zepto.Storage.Contents

/-!
# The arena allocator

`ArenaAllocator::allocate` reads the offset and tries to move it past its block by a weak
compare-and-swap, which may fail although the offset is unchanged and then reads it again. Threads
take these steps in any order. Since the last `reset` the blocks lie one behind the other below the
offset, so that no two share a byte (`arena_exclusive`); a column grows into such a block
(`reserve_eq_allocate`).
-/

namespace Zepto.Storage

open List Zepto.Lib

/-- The memory that `mmap` gives: it starts at a page, in the lower half of the address space. -/
structure Mapping where
  base : Nat
  totalSize : Nat
  page : 2 ^ 12 ∣ base
  fits : base + totalSize ≤ 2 ^ 63

/-- The arguments of `allocate`: the alignment is a power of two, at most a page. -/
structure Request where
  size : Nat
  shift : Nat
  size_lt : size < 2 ^ 32
  shift_le : shift ≤ 12

def Request.alignment (r : Request) : Nat := 2 ^ r.shift

/-- For a power of two, `& ~(alignment - 1)` goes down to a multiple. -/
def Arena.alignUp (value alignment : Nat) : Nat :=
  (value + alignment - 1) % 2 ^ 64 / alignment * alignment

/-- A call between two steps, and the offset it has read last. -/
structure ArenaCall where
  request : Request
  current : Nat

structure Block where
  start : Nat
  request : Request

def Block.stop (b : Block) : Nat := b.start + b.request.size

structure Arena where
  offset : Nat := 0
  calls : Nat → Option ArenaCall := fun _ => none
  /-- What was returned since the last `reset`. -/
  blocks : List Block := []
  /-- The calls that returned `nullptr`. -/
  refused : List ArenaCall := []

inductive ArenaEvent where
  | load (thread : Nat) (request : Request)
  | compareExchange (thread : Nat) (spurious : Bool)
  | reset

namespace Arena

def compareExchange (totalSize : Nat) (s : Arena) (thread : Nat) (spurious : Bool)
    (call : ArenaCall) : Arena :=
  let alignedOffset := alignUp call.current call.request.alignment
  let newOffset := (alignedOffset + call.request.size) % 2 ^ 64
  if newOffset > totalSize then
    { s with calls := Function.update s.calls thread none, refused := s.refused ++ [call] }
  else if !spurious && s.offset = call.current then
    { s with
      offset := newOffset
      calls := Function.update s.calls thread none
      blocks := s.blocks ++ [⟨alignedOffset, call.request⟩] }
  else { s with calls := Function.update s.calls thread (some { call with current := s.offset }) }

def next (totalSize : Nat) (s : Arena) : ArenaEvent → Arena
  | .load thread request =>
    if (s.calls thread).isSome then s
    else { s with calls := Function.update s.calls thread (some ⟨request, s.offset⟩) }
  | .compareExchange thread spurious =>
    match s.calls thread with
    | none => s
    | some call => s.compareExchange totalSize thread spurious call
  | .reset => { s with offset := 0, blocks := [] }

end Arena

def arena (m : Mapping) : Machine Arena ArenaEvent Unit where
  step s e := ((), s.next m.totalSize e)

/-- No multiple of the alignment from the offset on leaves room for the block. -/
def ArenaCall.NoRoom (totalSize : Nat) (call : ArenaCall) : Prop :=
  ∀ n, call.request.alignment ∣ n → call.current ≤ n → totalSize < n + call.request.size

/-- The blocks are aligned, apart and below the offset; a call that got `nullptr` did not fit at the
offset it had read last. -/
structure Arena.Exclusive (m : Mapping) (s : Arena) : Prop where
  offset : s.offset ≤ m.totalSize
  calls : ∀ thread, ∀ call ∈ s.calls thread, call.current ≤ m.totalSize
  aligned : ∀ b ∈ s.blocks, b.request.alignment ∣ m.base + b.start
  below : ∀ b ∈ s.blocks, b.stop ≤ s.offset
  apart : s.blocks.Pairwise fun b b' => b.stop ≤ b'.start
  refused : ∀ call ∈ s.refused, call.NoRoom m.totalSize

section

variable {m : Mapping} {s : Arena} {call : ArenaCall}

theorem Arena.alignUp_spec (r : Request) (value : Nat) (h : value ≤ 2 ^ 63) :
    r.alignment ∣ alignUp value r.alignment ∧ value ≤ alignUp value r.alignment ∧
      ∀ n, r.alignment ∣ n → value ≤ n → alignUp value r.alignment ≤ n := by
  have hle : r.alignment ≤ 2 ^ 12 := Nat.pow_le_pow_right (by decide) r.shift_le
  have hpos : 0 < r.alignment := Nat.two_pow_pos _
  rw [alignUp, Nat.mod_eq_of_lt (by omega)]
  refine ⟨Nat.dvd_mul_left _ _, ?_, ?_⟩
  · have := Nat.lt_div_mul_add hpos (a := value + r.alignment - 1)
    omega
  · rintro _ ⟨k, rfl⟩ hk
    rw [Nat.mul_comm]
    refine Nat.mul_le_mul_left _ (Nat.le_of_lt_succ (Nat.div_lt_of_lt_mul ?_))
    rw [Nat.mul_succ]
    omega

theorem Arena.Exclusive.update (h : s.Exclusive m) (thread : Nat) (call : Option ArenaCall)
    (hcall : ∀ c ∈ call, c.current ≤ m.totalSize) :
    ({ s with calls := Function.update s.calls thread call } : Arena).Exclusive m := by
  refine { h with calls := fun thread' => ?_ }
  by_cases ht : thread' = thread
  · simpa [ht] using hcall
  · simpa [ht] using h.calls thread'

theorem Arena.Exclusive.compareExchange (h : s.Exclusive m) (thread : Nat) (spurious : Bool)
    (hcurrent : call.current ≤ m.totalSize) :
    (s.compareExchange m.totalSize thread spurious call).Exclusive m := by
  have hfits := m.fits
  have hsize := call.request.size_lt
  have hshift := call.request.shift_le
  obtain ⟨hdvd, hle, hleast⟩ := alignUp_spec call.request call.current (by omega)
  have hbound := hleast (2 ^ 63) (Nat.pow_dvd_pow 2 (by omega)) (by omega)
  have hnone := h.update thread none nofun
  unfold Arena.compareExchange
  generalize alignUp call.current call.request.alignment = start at hdvd hle hleast hbound ⊢
  simp only [Nat.mod_eq_of_lt (show start + call.request.size < 2 ^ 64 by omega)]
  split_ifs with hroom hswap
  · refine { hnone with refused := forall_mem_append.mpr ⟨h.refused, ?_⟩ }
    rw [forall_mem_singleton]
    intro n hn hcall
    have := hleast n hn hcall
    omega
  · simp only [Bool.and_eq_true, decide_eq_true_eq] at hswap
    have hbelow (b : Block) (hb : b ∈ s.blocks) : b.stop ≤ start :=
      Nat.le_trans (hswap.2 ▸ h.below b hb) hle
    refine { hnone with
      offset := Nat.le_of_not_lt hroom
      aligned := forall_mem_append.mpr ⟨h.aligned, ?_⟩
      below := forall_mem_append.mpr ⟨fun b hb => ?_, ?_⟩
      apart := pairwise_append.mpr ⟨h.apart, pairwise_singleton _ _, ?_⟩ }
    · rw [forall_mem_singleton]
      exact Nat.dvd_add (Nat.dvd_trans (Nat.pow_dvd_pow 2 hshift) m.page) hdvd
    · exact Nat.le_trans (hbelow b hb) (Nat.le_add_right _ _)
    · rw [forall_mem_singleton]
      exact Nat.le_refl _
    · simpa using hbelow
  · exact h.update thread _ (by simpa using h.offset)

theorem Arena.Exclusive.next (h : s.Exclusive m) (e : ArenaEvent) :
    (s.next m.totalSize e).Exclusive m := by
  cases e with
  | load thread request =>
    simp only [Arena.next]
    split_ifs
    · exact h
    · exact h.update thread _ (by simpa using h.offset)
  | compareExchange thread spurious =>
    simp only [Arena.next]
    split
    · exact h
    next call hcall => exact h.compareExchange thread spurious (h.calls thread call hcall)
  | reset =>
    exact { h with offset := Nat.zero_le _, aligned := nofun, below := nofun, apart := .nil }

/-- Whatever the threads do, the blocks returned since the last `reset` are exclusive. -/
theorem arena_exclusive (m : Mapping) (events : List ArenaEvent) :
    ((arena m).run {} events).Exclusive m :=
  (arena m).invariant_run (fun _ e h => h.next e)
    ⟨Nat.zero_le _, nofun, nofun, nofun, .nil, nofun⟩ events

/-- A full column grows into the block that an undisturbed `allocate` returns. -/
theorem reserve_eq_allocate {c : ColumnVector} {r : Request} {used thread : Nat}
    (hfull : c.size = c.capacity) (hshift : r.shift = 6)
    (hsize : r.size = c.type.size * c.nextCapacity) (hused : used ≤ m.totalSize) :
    let s := (arena m).run { offset := used } [.load thread r, .compareExchange thread false]
    c.reserve m.totalSize used = if s.refused = [] then some s.offset else none := by
  have hfits := m.fits
  have hlt := r.size_lt
  have hstart : Arena.alignUp used r.alignment = alignUp used := by
    rw [Arena.alignUp, Request.alignment, hshift, alignUp]
    omega
  have hstop : (c.moveTo (alignUp used)).stop = (alignUp used + r.size) % 2 ^ 64 := by
    rw [hsize, Nat.mod_eq_of_lt (by rw [← hsize, alignUp]; omega)]
    rfl
  rw [ColumnVector.reserve, if_neg hfull.not_lt, hstop, ← hstart]
  simp only [Machine.run, foldl_cons, foldl_nil, arena, Arena.next, Arena.compareExchange,
    Option.isSome_none, Bool.false_eq_true, if_false, Function.update_self, Bool.not_false,
    Bool.true_and, decide_true, if_true]
  by_cases h : (Arena.alignUp used r.alignment + r.size) % 2 ^ 64 ≤ m.totalSize
  · rw [if_pos h, if_neg (Nat.not_lt.mpr h)]
    rfl
  · rw [if_neg h, if_pos (Nat.lt_of_not_le h)]
    rfl

end

end Zepto.Storage
