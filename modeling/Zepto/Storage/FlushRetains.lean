import Zepto.Storage.FlushDurable

/-!
# What the flush loop takes out of memory

Flushing and tiering write a partition and change its state, whether the writers succeed or not;
`reclaim_arena` leaves its columns where they are until rows arrive. Only an eviction past its hour
and the `DROP` tier past its age take a partition away (`flush_retains`).
-/

namespace Zepto.Storage

open List Zepto.Lib FlushState

def FlushState.partAt (st : FlushState) (key : PartitionKey) : Option Partition :=
  (st.residents.lookup key).map Resident.part

/-- The `DROP` tier takes the partition. -/
def TieringPolicy.drops (tp : TieringPolicy) (now : Int) (p : Partition) : Prop :=
  tp.enabled ∧ p.numRows ≠ 0 ∧ tp.dropAfterNs > 0 ∧
    wrap64 (now - p.key.hourEpoch) ≥ tp.dropAfterNs

/-- The event takes or replaces a partition. -/
def Takes (tp : TieringPolicy) (p : Partition) : FlushEvent → Prop
  | .ingest q => q.key = p.key
  | .tier now key _ => key = p.key ∧ tp.drops now p
  | .evict cutoff => p.key.hourEpoch < cutoff
  | _ => False

section

variable {config : FlushConfig} {st st' : FlushState} {r r' : Resident} {io : WriteOutcome}
  {key : PartitionKey}

section

variable (hr : st.residents.lookup r.part.key = some r)

include hr

theorem partAt_insert (hres : st'.residents = st.residents.insert r.part.key r')
    (hpart : r'.part = r.part := by rfl) : st'.partAt = st.partAt := by
  funext k
  unfold partAt
  by_cases hk : k = r.part.key
  · rw [hres, hk, AList.lookup_insert, hr]
    exact congrArg some hpart
  · rw [hres, AList.lookup_insert_ne hk]

theorem partAt_flushSealed : (st.flushSealed config io r).partAt = st.partAt :=
  iteInduction (motive := fun st' => partAt st' = st.partAt) (fun _ => partAt_insert hr rfl)
    (fun _ => partAt_insert hr rfl)

theorem partAt_tier (henabled : st.tiering.enabled) (now : Int) :
    (st.tier config now io r).partAt key = st.partAt key ∨
      key = r.part.key ∧ st.tiering.drops now r.part := by
  unfold FlushState.tier
  dsimp only
  split
  · exact .inl rfl
  rename_i hrows
  split
  next hdrop =>
    by_cases hk : key = r.part.key
    · exact .inr ⟨hk, henabled, hrows, hdrop⟩
    · exact .inl (congrArg _ (AList.lookup_erase_ne hk))
  split
  · unfold tierCold
    split
    · split <;> exact .inl rfl
    · exact .inl (congrFun (partAt_insert hr rfl) key)
    · exact .inl rfl
  split
  · unfold tierWarm
    split
    · dsimp only
      split <;> exact .inl (congrFun (partAt_insert hr rfl) key)
    · exact .inl rfl
  · exact .inl rfl

end

theorem partAt_of_mem (h : ⟨key, r⟩ ∈ st.residents.entries) : st.partAt key = some r.part := by
  rw [partAt, AList.mem_lookup_iff.mpr h]
  rfl

theorem Marked.of_resident (h : Marked st) {Q : FlushState → Prop} {f : Resident → FlushState}
    (h0 : Q st) (hf : ∀ r, r.part.key = key → st.residents.lookup r.part.key = some r → Q (f r)) :
    Q (st.withResident key f) := by
  unfold FlushState.withResident
  split
  next r hl =>
    obtain rfl : r.part.key = key := (h _ (AList.mem_lookup_iff.mp hl)).1
    exact hf r rfl hl
  · exact h0

theorem Marked.retains (h : Marked st) (e : FlushEvent) {p : Partition}
    (hp : st.partAt key = some p) :
    ((flushMachine config).step st e).2.partAt key = some p ∨ Takes st.tiering p e := by
  obtain ⟨r, hl, rfl⟩ := Option.map_eq_some_iff.mp hp
  have hmem := AList.mem_lookup_iff.mp hl
  obtain rfl : r.part.key = key := (h _ hmem).1
  cases e with
  | ingest q =>
    by_cases hq : q.key = r.part.key
    · exact .inr hq
    · left
      rw [← hp]
      exact congrArg _ (AList.lookup_insert_ne (Ne.symm hq))
  | sealOld now =>
    left
    refine (partAt_of_mem (mem_map_of_mem hmem)).trans (congrArg some ?_)
    dsimp only
    split <;> rfl
  | flush key io =>
    refine .inl (h.of_resident (Q := fun st' => st'.partAt _ = _) hp fun r' _ hr => ?_)
    split
    · rw [partAt_flushSealed hr, hp]
    · exact hp
  | tier now key io =>
    refine h.of_resident (Q := fun st' => st'.partAt _ = _ ∨ _) (.inl hp) fun r' hkey hr => ?_
    split
    next henabled =>
      refine (partAt_tier hr henabled now).imp (·.trans hp) ?_
      rintro ⟨hk, hdrops⟩
      rw [hk, hr] at hl
      cases hl
      exact ⟨hkey.symm, hdrops⟩
    · exact .inl hp
  | evict cutoff =>
    by_cases hold : r.part.key.hourEpoch < cutoff
    · exact .inr hold
    · exact .inl (partAt_of_mem (mem_filter.mpr ⟨hmem, by simpa using hold⟩))
  | setTieringPolicy warmNs coldNs dropNs => exact .inl hp

/-- In every reachable state a step keeps every partition that it does not take by its age. -/
theorem flush_retains (config : FlushConfig) (events : List FlushEvent) (e : FlushEvent)
    (key : PartitionKey) : let st := (flushMachine config).run (.initial config) events
    ∀ p ∈ st.partAt key, p ∈ ((flushMachine config).step st e).2.partAt key ∨
      Takes st.tiering p e := by
  have hmarked := (flushMachine config).invariant_run (P := Marked) (s := .initial config)
    (fun _ e h => h.step config e) nofun events
  exact fun p hp => hmarked.retains e hp

/-- The flush of a sealed partition. -/
theorem flush_retains_sealed : let p := oneTickPartition 1
    let st := (flushMachine {}).run (.initial {}) [.ingest p, .sealOld (3 * nsPerHour)]
    (st.residents.lookup p.key).map Resident.state = some .sealed ∧
      p ∈ ((flushMachine {}).step st (.flush p.key allWrites)).2.partAt p.key :=
  ⟨by decide +kernel, (flush_retains {}
    [.ingest _, .sealOld (3 * nsPerHour)] _ _ _ rfl).resolve_right
    id⟩

end

end Zepto.Storage
