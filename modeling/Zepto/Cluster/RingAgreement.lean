import Zepto.Cluster.RingUpdate

/-!
# Ring agreement

Handler threads of a follower run `apply_update` on the snapshots that arrive. Each decodes its
message, passes the compare-exchange loop of `validate` and then waits for the router's lock: three
steps, with those of other threads in between. A thread that validated an older snapshot may so
replace the router last (`ring_shows_older_snapshot`). `ring_agreement` says what holds if that does
not happen.
-/

namespace Zepto.Cluster

open List Zepto.Lib Router RingSnapshot

/-- Where a thread of `apply_update` stands. -/
inductive Handler where
  /-- The message is decoded, `last_seen` is not read yet. -/
  | received (snap : RingSnapshot)
  /-- At the head of the loop of `validate`. -/
  | comparing (snap : RingSnapshot) (expected : Epoch)
  /-- `validate` returned true; the thread waits for the lock. -/
  | validated (snap : RingSnapshot)
  | returned (snap : RingSnapshot) (applied : Bool)
  deriving DecidableEq

namespace Handler

def snap : Handler → RingSnapshot
  | received snap | comparing snap _ | validated snap | returned snap _ => snap

/-- `validate` let the snapshot pass. -/
def accepted : Handler → Bool
  | validated _ => true
  | returned _ applied => applied
  | _ => false

def done : Handler → Bool
  | returned _ _ => true
  | _ => false

end Handler

structure Follower where
  router : Router
  lastSeen : Epoch := 0
  handlers : List Handler := []

/-- A step of one of the threads, or a message that arrives and starts one. -/
inductive FollowerEvent where
  | deliver (data : List Byte)
  | load (i : Nat)
  /-- One turn of the loop; a weak exchange may fail for no reason. -/
  | exchange (i : Nat) (spurious : Bool)
  | replace (i : Nat)

namespace Follower

def put (f : Follower) (i : Nat) (h : Handler) : Follower :=
  { f with handlers := f.handlers.set i h }

def next (f : Follower) : FollowerEvent → Follower
  | .deliver data =>
    match deserialize data with
    | .ok snap => { f with handlers := f.handlers ++ [.received snap] }
    | .error _ => f
  | .load i =>
    match f.handlers[i]? with
    | some (.received snap) => f.put i (.comparing snap f.lastSeen)
    | _ => f
  | .exchange i spurious =>
    match f.handlers[i]? with
    | some (.comparing snap expected) =>
      if snap.epoch < expected then f.put i (.returned snap false)
      else if f.lastSeen = expected ∧ spurious = false then
        { f with lastSeen := snap.epoch }.put i (.validated snap)
      else f.put i (.comparing snap f.lastSeen)
    | _ => f
  | .replace i =>
    match f.handlers[i]? with
    | some (.validated snap) =>
      { f with router := f.router.replaceRing snap }.put i (.returned snap true)
    | _ => f

/-- The snapshots that `validate` let pass. -/
def accepted (f : Follower) : List RingSnapshot := (f.handlers.filter (·.accepted)).map (·.snap)

def Quiet (f : Follower) : Prop := ∀ h ∈ f.handlers, h.done = true

def Installed (f : Follower) (snap : RingSnapshot) : Prop := .returned snap true ∈ f.handlers

/-- A step does nothing, starts a thread, moves one on, lets a snapshot pass, or replaces the
router. -/
inductive Step (f : Follower) (e : FollowerEvent) : Follower → Prop where
  | idle : Step f e f
  | start (data : List Byte) (snap : RingSnapshot) (he : e = .deliver data)
      (hsnap : deserialize data = .ok snap) :
      Step f e { f with handlers := f.handlers ++ [.received snap] }
  | move (i : Nat) (h h' : Handler) (hi : f.handlers[i]? = some h) (hopen : h.done = false)
      (hsnap : h'.snap = h.snap) (hrefused : h'.accepted = false) : Step f e (f.put i h')
  | pass (i : Nat) (snap : RingSnapshot) (hi : f.handlers[i]? = some (.comparing snap f.lastSeen))
      (hle : f.lastSeen ≤ snap.epoch) :
      Step f e ({ f with lastSeen := snap.epoch }.put i (.validated snap))
  | install (i : Nat) (snap : RingSnapshot) (he : e = .replace i)
      (hi : f.handlers[i]? = some (.validated snap)) :
      Step f e ({ f with router := f.router.replaceRing snap }.put i (.returned snap true))

theorem step_next (f : Follower) (e : FollowerEvent) : Step f e (f.next e) := by
  cases e with
  | deliver data =>
    simp only [next]
    split
    next snap hsnap =>
      exact .start data snap rfl hsnap
    · exact .idle
  | load i =>
    simp only [next]
    split
    next snap hi =>
      exact .move i (.received snap) _ hi rfl rfl rfl
    · exact .idle
  | exchange i spurious =>
    simp only [next]
    split
    next snap expected hi =>
      split
      · exact .move i (.comparing snap expected) _ hi rfl rfl rfl
      rename_i hle
      split
      next heq =>
        obtain ⟨rfl, -⟩ := heq
        exact .pass i snap hi (BitVec.not_lt.mp hle)
      · exact .move i (.comparing snap expected) _ hi rfl rfl rfl
    · exact .idle
  | replace i =>
    simp only [next]
    split
    next snap hi =>
      exact .install i snap rfl hi
    · exact .idle

/-! ## Runs -/

variable {f : Follower} {e : FollowerEvent}

theorem lastSeen_le_next (f : Follower) (e : FollowerEvent) : f.lastSeen ≤ (f.next e).lastSeen := by
  have hstep := f.step_next e
  generalize f.next e = f' at hstep ⊢
  cases hstep with
  | pass i snap hi hle => exact hle
  | _ => exact BitVec.le_refl _

theorem mem_set_of_ne {l : List Handler} {i : Nat} {g h h' : Handler} (hi : l[i]? = some h)
    (hne : g ≠ h) : g ∈ l.set i h' ↔ g = h' ∨ g ∈ l := by
  obtain ⟨hlt, rfl⟩ := List.getElem?_eq_some_iff.mp hi
  constructor
  · intro hmem
    exact (mem_or_eq_of_mem_set hmem).symm
  rintro (rfl | hmem)
  · exact mem_set hlt _
  obtain ⟨j, hj, rfl⟩ := getElem_of_mem hmem
  have hij : i ≠ j := fun h => hne (by simp [h])
  refine mem_iff_getElem.mpr ⟨j, by simpa using hj, ?_⟩
  exact getElem_set_ne hij _

theorem installed_put {i : Nat} {h : Handler} (hi : f.handlers[i]? = some h)
    (hopen : h.done = false) (h' : Handler) (snap : RingSnapshot) :
    (f.put i h').Installed snap ↔ h' = .returned snap true ∨ f.Installed snap := by
  have hne : .returned snap true ≠ h := by
    rintro rfl
    cases hopen
  rw [Installed, put, mem_set_of_ne hi hne, eq_comm]
  rfl

end Follower

def follower : Machine Follower FollowerEvent Unit where
  step f e := ((), f.next e)

/-- The leader's messages arrive, and no snapshot replaces the router after a newer one. -/
def InOrder (sent : List RingSnapshot) (f : Follower) : FollowerEvent → Prop
  | .deliver data => ∃ snap ∈ sent, snap.Fits ∧ data = snap.serialize
  | .replace i => ∀ snap, f.handlers[i]? = some (.validated snap) →
      ∀ newer, f.Installed newer → newer.epoch ≤ snap.epoch
  | _ => True

/-- Snapshots under way are the leader's, and the router shows the newest that replaced it. -/
structure Agrees (sent : List RingSnapshot) (f : Follower) : Prop where
  known : ∀ h ∈ f.handlers, h.snap ∈ sent
  shown : (∀ snap, ¬f.Installed snap) ∨ ∃ top, f.Installed top ∧ f.router.Shows top ∧
    ∀ snap, f.Installed snap → snap.epoch ≤ top.epoch

section

variable {sent : List RingSnapshot} {f f' : Follower}

theorem Agrees.of_installed (h : Agrees sent f) (hknown : ∀ h ∈ f'.handlers, h.snap ∈ sent)
    (hrouter : f'.router = f.router) (hsame : ∀ snap, f'.Installed snap ↔ f.Installed snap) :
    Agrees sent f' := by
  refine ⟨hknown, ?_⟩
  simp only [hsame, hrouter]
  exact h.shown

theorem known_put {i : Nat} {h h' : Handler} (hknown : ∀ h ∈ f.handlers, h.snap ∈ sent)
    (hi : f.handlers[i]? = some h) (hsnap : h'.snap = h.snap) :
    ∀ g ∈ (f.put i h').handlers, g.snap ∈ sent := by
  intro g hg
  rcases mem_or_eq_of_mem_set hg with hmem | rfl
  · exact hknown g hmem
  · exact hsnap ▸ hknown h (mem_of_getElem? hi)

theorem agrees_next (hpins : ∀ snap ∈ sent, snap.PinsDistinct) (h : Agrees sent f)
    {e : FollowerEvent} (he : InOrder sent f e) : Agrees sent (f.next e) := by
  have hstep := f.step_next e
  generalize f.next e = f' at hstep ⊢
  cases hstep with
  | idle => exact h
  | start data snap hdata hsnap =>
    subst hdata
    obtain ⟨snap', hsent, hfits, rfl⟩ := he
    rw [deserialize_serialize hfits] at hsnap
    cases hsnap
    refine h.of_installed (fun g hg => ?_) rfl fun s => ?_
    · rcases mem_append.mp hg with hmem | hmem
      · exact h.known g hmem
      · rw [mem_singleton.mp hmem]
        exact hsent
    · simp [Follower.Installed]
  | move i g g' hi hopen hsnap hrefused =>
    refine h.of_installed (known_put h.known hi hsnap) rfl fun s => ?_
    rw [Follower.installed_put hi hopen, or_iff_right]
    rintro rfl
    cases hrefused
  | pass i snap hi hle =>
    refine h.of_installed (known_put (f := { f with lastSeen := snap.epoch }) h.known hi rfl) rfl
      fun s => ?_
    rw [Follower.installed_put (f := { f with lastSeen := snap.epoch }) hi rfl, or_iff_right]
    · rfl
    · intro heq
      cases heq
  | install i snap hreplace hi =>
    subst hreplace
    have hsent : snap ∈ sent := h.known _ (mem_of_getElem? hi)
    have hput (s : RingSnapshot) :=
      Follower.installed_put (f := { f with router := f.router.replaceRing snap }) hi rfl
        (.returned snap true) s
    refine ⟨known_put (f := { f with router := f.router.replaceRing snap }) h.known hi rfl,
      .inr ⟨snap, (hput snap).mpr (.inl rfl), f.router.replaceRing_shows (hpins snap hsent), ?_⟩⟩
    intro s hs
    rcases (hput s).mp hs with heq | hold
    · cases heq
      exact BitVec.le_refl _
    · exact he snap hi s hold

theorem agrees_start (sent : List RingSnapshot) (r : Router) (seen : Epoch) :
    Agrees sent ⟨r, seen, []⟩ := by
  refine ⟨fun h hmem => ?_, .inl fun snap hmem => ?_⟩
  all_goals cases hmem

/-- In a quiet state the accepted snapshots are the installed ones. -/
theorem Follower.Quiet.accepted_iff (h : f.Quiet) {snap : RingSnapshot} :
    snap ∈ f.accepted ↔ f.Installed snap := by
  rw [accepted, mem_map]
  constructor
  · rintro ⟨g, hg, rfl⟩
    obtain ⟨hmem, hacc⟩ := mem_filter.mp hg
    have hdone := h g hmem
    cases g with
    | returned snap applied =>
      cases (show applied = true from hacc)
      exact hmem
    | _ => cases hdone
  · intro hmem
    exact ⟨_, mem_filter.mpr ⟨hmem, rfl⟩, rfl⟩

end

/-- The accepted epoch never falls; and if no snapshot replaces the router after a newer one, a
quiet follower shows the newest it accepted. -/
theorem ring_agreement {sent : List RingSnapshot}
    (hepochs : sent.Pairwise fun a b => a.epoch < b.epoch)
    (hpins : ∀ snap ∈ sent, snap.PinsDistinct) (r : Router) (seen : Epoch)
    {events : List FollowerEvent} (hrun : follower.Admits (InOrder sent) ⟨r, seen, []⟩ events) :
    (∀ more, (follower.run ⟨r, seen, []⟩ events).lastSeen ≤
      (follower.run ⟨r, seen, []⟩ (events ++ more)).lastSeen) ∧
    ((follower.run ⟨r, seen, []⟩ events).Quiet →
      ∀ top ∈ (follower.run ⟨r, seen, []⟩ events).accepted,
        (∀ snap ∈ (follower.run ⟨r, seen, []⟩ events).accepted, snap.epoch ≤ top.epoch) →
        (follower.run ⟨r, seen, []⟩ events).router.Shows top) := by
  have hagree : Agrees sent (follower.run ⟨r, seen, []⟩ events) :=
    follower.invariant_admits (P := Agrees sent) (fun _ _ h he => agrees_next hpins h he)
      (agrees_start sent r seen) hrun
  refine ⟨fun more => ?_, fun hquiet top htop hnewest => ?_⟩
  · rw [follower.run_append]
    exact follower.invariant_run (P := fun g => _ ≤ g.lastSeen)
      (fun g e h => BitVec.le_trans h (g.lastSeen_le_next e)) (BitVec.le_refl _) more
  have hinst := hquiet.accepted_iff.mp htop
  obtain hnone | ⟨shown, hshown, hrouter, hmax⟩ := hagree.shown
  · exact absurd hinst (hnone top)
  -- The snapshot shown and the newest accepted one have the same epoch.
  have hepoch : shown.epoch = top.epoch :=
    BitVec.le_antisymm (hnewest shown (hquiet.accepted_iff.mpr hshown)) (hmax top hinst)
  have hdistinct : (sent.map (·.epoch)).Nodup :=
    pairwise_map.mpr (hepochs.imp fun hlt heq => absurd (heq ▸ hlt) (BitVec.lt_irrefl _))
  have hsame : shown = top :=
    inj_on_of_nodup_map hdistinct (hagree.known _ hshown) (hagree.known _ hinst) hepoch
  exact hsame ▸ hrouter

def twoSnapshots : List RingSnapshot := [⟨1, [1], []⟩, ⟨2, [1, 2], []⟩]

/-- Both messages are validated before the first one replaces the router. -/
def bothValidated : List FollowerEvent :=
  twoSnapshots.map (fun snap => .deliver snap.serialize) ++
    [.load 0, .exchange 0 false, .load 1, .exchange 1 false]

theorem twoSnapshots_fit : ∀ snap ∈ twoSnapshots, snap.Fits := by
  unfold Fits twoSnapshots
  decide

theorem run_bothValidated : follower.run ⟨new, 0, []⟩ bothValidated =
    ⟨new, 2, twoSnapshots.map .validated⟩ := by
  show follower.run ((Follower.mk new 0 []).next (.deliver (mk 1 [1] []).serialize)
    |>.next (.deliver (mk 2 [1, 2] []).serialize))
    [.load 0, .exchange 0 false, .load 1, .exchange 1 false] = _
  rfl

/-- In order: the first snapshot, then the second. -/
theorem ring_agreement_in_order :
    (follower.run ⟨Router.new, 0, []⟩ (bothValidated ++ [.replace 0, .replace 1])).router.Shows
      ⟨2, [1, 2], []⟩ := by
  have hadmits : follower.Admits (InOrder twoSnapshots) ⟨new, 0, []⟩
      (bothValidated ++ [.replace 0, .replace 1]) := by
    refine (follower.admits_append _ _ _).mpr ⟨?_, ?_⟩
    · refine ⟨⟨_, by decide, twoSnapshots_fit _ (by decide), rfl⟩,
        ⟨_, by decide, twoSnapshots_fit _ (by decide), rfl⟩, trivial, trivial, trivial,
          trivial, trivial⟩
    rw [run_bothValidated]
    refine ⟨?_, ?_, trivial⟩
    · rintro snap - newer hmem
      simp [Follower.Installed] at hmem
    intro snap hi newer hmem
    simp [follower, Follower.next, Follower.put, Follower.Installed, twoSnapshots] at hi hmem
    subst hi hmem
    decide
  have hrun : follower.run ⟨new, 0, []⟩ (bothValidated ++ [.replace 0, .replace 1]) =
      ⟨(new.replaceRing ⟨1, [1], []⟩).replaceRing ⟨2, [1, 2], []⟩, 2,
        twoSnapshots.map (.returned · true)⟩ := by
    rfl
  refine (ring_agreement (by decide) (by simp [RingSnapshot.PinsDistinct, twoSnapshots]) _ _
    hadmits).2 ?_ _ ?_ ?_
  · rw [hrun]
    intro h hmem
    revert h
    simp [Handler.done]
  · rw [hrun]
    decide
  · rw [hrun]
    decide

/-- The thread of the older snapshot comes last: the follower shows the older one. -/
theorem ring_shows_older_snapshot :
    (follower.run ⟨Router.new, 0, []⟩ (bothValidated ++ [.replace 1, .replace 0])).accepted =
      twoSnapshots ∧
    (follower.run ⟨Router.new, 0, []⟩ (bothValidated ++ [.replace 1, .replace 0])).Quiet ∧
    (follower.run ⟨Router.new, 0, []⟩ (bothValidated ++ [.replace 1, .replace 0])).router.nodeSet =
      {1} := by
  have hrun : follower.run ⟨new, 0, []⟩ (bothValidated ++ [.replace 1, .replace 0]) =
      ⟨(new.replaceRing ⟨2, [1, 2], []⟩).replaceRing ⟨1, [1], []⟩, 2,
        twoSnapshots.map (.returned · true)⟩ := by
    rfl
  rw [hrun]
  refine ⟨rfl, fun h hmem => ?_, ?_⟩
  · revert h
    simp [Handler.done]
  · have hpins : (mk 1 [1] []).PinsDistinct := nodup_nil
    exact (replaceRing_shows _ hpins).1

end Zepto.Cluster
