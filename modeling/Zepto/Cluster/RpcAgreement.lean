import Zepto.Cluster.RpcAuth

/-!
# Agreement of authenticated connections

In every run, whatever the attacker sends, a server in its request loop and a client that got its
connection each have a partner: a connection of the other role, with the same secret, that sent the
proof for exactly its nonces (`rpc_mutual_authentication`). For a code on the wire was sent by a
party for the text of its own role and nonces (`Honest`), and texts are equal only for the same role
and nonces (`proofText_inj`).
-/

namespace Zepto.Cluster.RpcAuth

open ServerConn List Zepto.Lib ClientConn

/-! ## Texts of proofs -/

section

variable {role role' : Role} {cn sn : Received} {secret : Secret} {proof : Received}

theorem length_domain (role : Role) : (asciiBytes role.domain).length = 32 := by
  cases role with
  | server | client => decide +kernel

theorem domain_inj (h : asciiBytes role.domain = asciiBytes role'.domain) : role = role' := by
  have hinj : Function.Injective (@SymByte.plain Secret) := fun a b e => by injection e
  have hbytes : role.domain.toList.map (fun c => .ofNat 8 c.toNat) =
      role'.domain.toList.map (fun c => BitVec.ofNat 8 c.toNat) := by
    refine map_injective_iff.mpr hinj ?_
    rw [map_map, map_map]
    exact h
  cases role <;> cases role' <;> first
    | rfl
    | exact absurd hbytes (by decide +kernel)

theorem proofText_inj {cn' sn' : Received} (h : proofText role cn sn = proofText role' cn' sn') :
    role = role' ∧ cn = cn' ∧ sn = sn' := by
  obtain ⟨hleft, hsn⟩ := append_inj h (by
    rw [length_append, length_append, length_domain, length_domain, cn.2, cn'.2])
  obtain ⟨hdomain, hcn⟩ := append_inj hleft (by rw [length_domain, length_domain])
  exact ⟨domain_inj hdomain, Subtype.ext hcn, Subtype.ext hsn⟩

theorem computeProof_some (h : computeProof secret role cn sn = some proof) :
    proof = macOf 32 secret (proofText role cn sn) := by
  unfold computeProof at h
  split at h
  · cases h
  · exact (Option.some.inj h).symm

/-- Only the code of the text is a valid proof. -/
theorem validateProof_true (h : validateProof secret role cn sn proof) :
    proof = macOf 32 secret (proofText role cn sn) := by
  unfold validateProof at h
  split at h
  · cases h
  next expected hexpected =>
    rw [← computeProof_some hexpected]
    exact (of_decide_eq_true h).symm

theorem recvAll_some {n : Nat} {payload : Bytes} {b : Block Secret n}
    (h : recvAll n payload = some b) : b.1 = payload := by
  unfold recvAll at h
  split at h
  · rw [← Option.some.inj h]
  · cases h

/-! ## Parties -/

/-- What a connection contributes to the argument. -/
structure Party where
  secret : Secret
  nonce : Option RpcAuthNonce
  proved : Option (Received × Received)

def ServerConn.party (conn : ServerConn) : Party :=
  ⟨conn.security.sharedSecret, conn.serverNonce, conn.proved⟩

def ClientConn.party (conn : ClientConn) : Party :=
  ⟨conn.security.sharedSecret, conn.clientNonce, conn.proved⟩

def World.party (s : World) : Role → Nat → Option Party
  | .server, i => s.servers[i]?.map ServerConn.party
  | .client, j => s.clients[j]?.map ClientConn.party

/-- The nonce of the pair a role draws itself. -/
def Role.own : Role → Received × Received → Received
  | server, nonces => nonces.2
  | client, nonces => nonces.1

/-- A connection of the role, with the secret, has sent its proof for the nonces. -/
def World.Proved (s : World) (role : Role) (secret : Secret) (cn sn : Received) : Prop :=
  ∃ i p, s.party role i = some p ∧ p.secret = secret ∧ p.proved = some (cn, sn)

/-- What is on the wire comes from the parties, and each has its own nonce. -/
structure Honest (s : World) : Prop where
  wire : ∀ secret text k, .mac secret text k ∈ s.wire →
    ∃ role cn sn, s.Proved role secret cn sn ∧ text = proofText role cn sn
  own : ∀ role i p nonces, s.party role i = some p → p.proved = some nonces →
    p.nonce.map plainBlock = some (role.own nonces)
  drawn : ∀ role i p n, s.party role i = some p → p.nonce = some n → n ∈ s.nonces
  distinct : ∀ role i j p q n, s.party role i = some p → s.party role j = some q →
    p.nonce = some n → q.nonce = some n → i = j

/-- One connection moves: what it may do to the wire and to its own record. -/
structure Move (s s' : World) (role : Role) (i : Nat) (p : Party) : Prop where
  party : ∀ r j, s'.party r j = if r = role ∧ j = i then some p else s.party r j
  keeps : ∀ q, s.party role i = some q →
    q.secret = p.secret ∧ ∀ nonces, q.proved = some nonces → p.proved = some nonces
  own : ∀ nonces, p.proved = some nonces → p.nonce.map plainBlock = some (role.own nonces)
  nonces : ∀ n ∈ s.nonces, n ∈ s'.nonces
  nonce : ∀ n, p.nonce = some n → (∃ q, s.party role i = some q ∧ q.nonce = some n) ∨
    (n ∉ s.nonces ∧ n ∈ s'.nonces)
  wire : ∀ a ∈ s'.wire, a ∈ s.wire ∨ (∃ b, a = .plain b) ∨
    ∃ cn sn k, p.proved = some (cn, sn) ∧ a = .mac p.secret (proofText role cn sn) k

end

section

variable {s s' : World} {role : Role} {i : Nat} {p : Party}

variable {r : Role} {j : Nat} {q : Party}

section

variable (h : Move s s' role i p)

include h

theorem Move.self : s'.party role i = some p := by
  rw [h.party, if_pos ⟨rfl, rfl⟩]

theorem Move.cases (hq : s'.party r j = some q) :
    (r = role ∧ j = i ∧ q = p) ∨ s.party r j = some q := by
  rw [h.party] at hq
  split at hq
  next hrj =>
    exact .inl ⟨hrj.1, hrj.2, (Option.some.inj hq).symm⟩
  · exact .inr hq

theorem Move.proved {secret : Secret} {cn sn : Received}
    (hr : s.Proved r secret cn sn) : s'.Proved r secret cn sn := by
  obtain ⟨j, q, hq, hsecret, hproved⟩ := hr
  by_cases hrj : r = role ∧ j = i
  · obtain ⟨rfl, rfl⟩ := hrj
    obtain ⟨hkeep, hkeeps⟩ := h.keeps q hq
    exact ⟨j, p, h.self, by rw [← hkeep, hsecret], hkeeps _ hproved⟩
  · refine ⟨j, q, ?_, hsecret, hproved⟩
    rw [h.party, if_neg hrj, hq]

theorem Move.distinct_self (hs : Honest s) {n : RpcAuthNonce}
    (hq : s.party role j = some q) (hqn : q.nonce = some n) (hpn : p.nonce = some n) : j = i := by
  rcases h.nonce n hpn with ⟨p', hp', hp'n⟩ | ⟨hfresh, -⟩
  · exact hs.distinct role j i q p' n hq hp' hqn hp'n
  · exact absurd (hs.drawn role j q n hq hqn) hfresh

end

theorem Honest.move (hs : Honest s) (h : Move s s' role i p) : Honest s' where
  wire := by
    intro secret text k hmem
    rcases h.wire _ hmem with hold | ⟨b, hb⟩ | ⟨cn, sn, k', hproved, heq⟩
    · obtain ⟨r, cn, sn, hr, htext⟩ := hs.wire secret text k hold
      exact ⟨r, cn, sn, h.proved hr, htext⟩
    · cases hb
    · injection heq with hsecret htext
      exact ⟨role, cn, sn, ⟨i, p, h.self, hsecret.symm, hproved⟩, htext⟩
  own := by
    intro r j q nonces hq hproved
    rcases h.cases hq with ⟨rfl, rfl, rfl⟩ | hq
    · exact h.own nonces hproved
    · exact hs.own r j q nonces hq hproved
  drawn := by
    intro r j q n hq hn
    rcases h.cases hq with ⟨rfl, rfl, rfl⟩ | hq
    · rcases h.nonce n hn with ⟨p', hp', hp'n⟩ | ⟨-, hmem⟩
      · exact h.nonces n (hs.drawn r j p' n hp' hp'n)
      · exact hmem
    · exact h.nonces n (hs.drawn r j q n hq hn)
  distinct := by
    intro r j j' q q' n hq hq' hn hn'
    rcases h.cases hq with ⟨hr, hj, rfl⟩ | hold
    · subst hr hj
      rcases h.cases hq' with ⟨-, hj', -⟩ | hold'
      · exact hj'.symm
      · exact (h.distinct_self hs hold' hn' hn).symm
    rcases h.cases hq' with ⟨hr, hj', rfl⟩ | hold'
    · subst hr hj'
      exact h.distinct_self hs hold hn hn'
    · exact hs.distinct r j j' q q' n hold hold' hn hn'

end

section

variable {role : Role} {s s' : World} {i : Nat} {nonce : Option RpcAuthNonce}
  {known : Secret → Prop} {cn sn : Received} {conn : ServerConn} {α : Type} {frame : Option Frame}
  {out : List Frame}

/-- What a connection does to its record and sends, `nonce` being what it draws. -/
structure PartyMove (role : Role) (q p : Party) (nonce : Option RpcAuthNonce) (out : Bytes) :
    Prop where
  secret : q.secret = p.secret
  keeps : ∀ nonces, q.proved = some nonces → p.proved = some nonces
  own : ∀ nonces, p.proved = some nonces → (q.proved = some nonces ∧ p.nonce = q.nonce) ∨
    p.nonce.map plainBlock = some (role.own nonces)
  drawn : ∀ n, p.nonce = some n → q.nonce = some n ∨ nonce = some n
  sent : ∀ a ∈ out, (∃ b, a = .plain b) ∨
    ∃ cn sn k, p.proved = some (cn, sn) ∧ a = .mac p.secret (proofText role cn sn) k

theorem PartyMove.refl (q : Party) (nonce : Option RpcAuthNonce) : PartyMove role q q nonce [] :=
  ⟨rfl, fun _ h => h, fun _ h => .inl ⟨h, rfl⟩, fun _ h => .inl h, nofun⟩

/-- The connection has the record; a new one starts from an empty record. -/
def World.Begins (s : World) (role : Role) (i : Nat) (q : Party) : Prop :=
  s.party role i = some q ∨ s.party role i = none ∧ q.nonce = none ∧ q.proved = none

theorem Move.ofParty {q p : Party} {out : Bytes} (hs : Honest s) (hq : s.Begins role i q)
    (hmove : PartyMove role q p nonce out)
    (hparty : ∀ r j, s'.party r j = if r = role ∧ j = i then some p else s.party r j)
    (hwire : s'.wire = s.wire ++ out) (hnonces : s'.nonces = s.nonces ++ nonce.toList)
    (hfresh : ∀ n, nonce = some n → n ∉ s.nonces) : Move s s' role i p where
  party := hparty
  keeps := by
    intro q' hq'
    rcases hq with hq | ⟨hnone, -⟩
    · rw [← Option.some.inj (hq.symm.trans hq')]
      exact ⟨hmove.secret, hmove.keeps⟩
    · rw [hnone] at hq'
      cases hq'
  own := by
    intro nonces hproved
    rcases hmove.own nonces hproved with ⟨hold, hsame⟩ | hown
    · rcases hq with hq | ⟨-, -, hnone⟩
      · rw [hsame]
        exact hs.own role i q nonces hq hold
      · rw [hnone] at hold
        cases hold
    · exact hown
  nonces := fun n hn => by
    rw [hnonces]
    exact mem_append_left _ hn
  nonce := by
    intro n hn
    rcases hmove.drawn n hn with hold | hnew
    · rcases hq with hq | ⟨-, hnone, -⟩
      · exact .inl ⟨q, hq, hold⟩
      · rw [hnone] at hold
        cases hold
    · rw [hnonces, hnew]
      exact .inr ⟨hfresh n hnew, mem_append_right _ (mem_singleton.mpr rfl)⟩
  wire := by
    intro a ha
    rw [hwire, mem_append] at ha
    rcases ha with ha | ha
    · exact .inl ha
    · exact .inr (hmove.sent a ha)

/-! ## Acceptance -/

/-- A proof from the attacker, under a secret it does not know, was sent by a connection of its role
for its nonces. -/
theorem Honest.unforged (hs : Honest s) {payload : Bytes}
    (hpayload : ∀ a ∈ payload, SymByte.Derivable known s.wire a) {secret : Secret}
    (hproof : ∀ a ∈ (macOf 32 secret (proofText role cn sn)).1, a ∈ payload)
    (hsecret : ¬known secret) : s.Proved role secret cn sn := by
  have hmem := hproof (.mac secret (proofText role cn sn) 0)
    (mem_map.mpr ⟨0, mem_range.mpr (by decide), rfl⟩)
  have hwire := (hpayload _ hmem).mem_wire hsecret
  obtain ⟨r, cn', sn', hproved, htext⟩ := hs.wire _ _ _ hwire
  obtain ⟨rfl, rfl, rfl⟩ := proofText_inj htext
  exact hproved

def ServerConn.Ok (known : Secret → Prop) (s : World) (conn : ServerConn) : Prop :=
  match conn.phase with
  | .hello => conn.proved = none
  | .proof cn sn => conn.proved = some (cn, sn)
  | .serving none => conn.security.enabled = false
  | .serving (some (cn, sn)) => conn.proved = some (cn, sn) ∧
      (¬known conn.security.sharedSecret → s.Proved .client conn.security.sharedSecret cn sn)
  | .closed => True

def ClientConn.Ok (known : Secret → Prop) (s : World) (conn : ClientConn) : Prop :=
  match conn.phase with
  | .challenge cn => conn.proved = none ∧ conn.clientNonce.map plainBlock = some cn
  | .ok cn sn => conn.proved = some (cn, sn) ∧
      (¬known conn.security.sharedSecret → s.Proved .server conn.security.sharedSecret cn sn)
  | .returned none => conn.security.enabled = false
  | .returned (some (cn, sn)) => conn.proved = some (cn, sn) ∧
      (¬known conn.security.sharedSecret → s.Proved .server conn.security.sharedSecret cn sn)
  | .failed => True

section

variable (hs : ∀ role secret cn sn, s.Proved role secret cn sn → s'.Proved role secret cn sn)

include hs

theorem ServerConn.Ok.mono (h : conn.Ok known s) : conn.Ok known s' := by
  unfold Ok at h ⊢
  split at h <;> first
    | exact h
    | exact ⟨h.1, fun hsecret => hs _ _ _ _ (h.2 hsecret)⟩

theorem ClientConn.Ok.mono {conn : ClientConn} (h : conn.Ok known s) : conn.Ok known s' := by
  unfold Ok at h ⊢
  split at h <;> first
    | exact h
    | exact ⟨h.1, fun hsecret => hs _ _ _ _ (h.2 hsecret)⟩

end

/-! ## What a connection can do -/

inductive ServerMove (conn : ServerConn) (frame : Option Frame) (nonce : Option RpcAuthNonce) :
    ServerConn → List Frame → Prop
  | stay : ServerMove conn frame nonce conn []
  | close {out : List Frame} : payloads out = [] →
      ServerMove conn frame nonce { conn with phase := .closed } out
  | spoil {n : RpcAuthNonce} : conn.phase = .hello → nonce = some n →
      ServerMove conn frame nonce { conn with phase := .closed, serverNonce := some n } [rejectAuth]
  | challenge {cn : Received} {n : RpcAuthNonce} {phase : ServerPhase} :
      conn.phase = .hello → nonce = some n → phase = .proof cn (plainBlock n) ∨ phase = .closed →
      ServerMove conn frame nonce
        { conn with phase, serverNonce := some n, proved := some (cn, plainBlock n) }
        [authFrame AUTH_SERVER_CHALLENGE ((plainBlock n).1 ++
          (macOf 32 conn.security.sharedSecret (proofText .server cn (plainBlock n))).1)]
  | enter {cn sn : Received} {f : Frame} {phase : ServerPhase} :
      conn.phase = .proof cn sn → frame = some f →
      (macOf 32 conn.security.sharedSecret (proofText .client cn sn)).1 = f.payload →
      phase = .serving (some (cn, sn)) ∨ phase = .closed →
      ServerMove conn frame nonce { conn with phase } [authFrame AUTH_OK]

theorem ServerConn.onHello_move (hphase : conn.phase = .hello) (frame : Frame)
    (nonce : Option RpcAuthNonce) (sendOk : Bool) :
    ServerMove conn (some frame) nonce (conn.onHello frame nonce sendOk).1
      (conn.onHello frame nonce sendOk).2 := by
  unfold onHello
  split
  · exact .close rfl
  split
  · exact .close rfl
  rename_i cn _
  cases hnonce : nonce with
  | none => exact .close rfl
  | some n =>
    cases hproof : computeProof conn.security.sharedSecret .server cn (plainBlock n) with
    | none =>
      simp only [hproof]
      exact .spoil hphase rfl
    | some proof =>
      simp only [hproof]
      rw [computeProof_some hproof]
      exact .challenge hphase rfl (by cases sendOk <;> simp)

theorem ServerConn.onProof_move (hphase : conn.phase = .proof cn sn) (frame : Frame)
    (nonce : Option RpcAuthNonce) (sendOk : Bool) :
    ServerMove conn (some frame) nonce (conn.onProof cn sn frame sendOk).1
      (conn.onProof cn sn frame sendOk).2 := by
  unfold onProof
  split
  · exact .close rfl
  split
  · exact .close rfl
  rename_i proof hrecv
  split
  · exact .close rfl
  rename_i hvalid
  rw [Bool.not_eq_true, Bool.not_eq_false'] at hvalid
  refine .enter hphase rfl ?_ (by cases sendOk <;> simp)
  rw [← validateProof_true hvalid, recvAll_some hrecv]

theorem ServerConn.receive_move (conn : ServerConn) (frame : Option Frame)
    (nonce : Option RpcAuthNonce) (sendOk : Bool) :
    ServerMove conn frame nonce (conn.receive frame nonce sendOk).1
      (conn.receive frame nonce sendOk).2 := by
  unfold receive
  split
  next hphase =>
    exact onHello_move hphase _ _ _
  next hphase =>
    exact onProof_move hphase _ _ _
  · exact .close rfl
  · exact .stay

inductive ClientMove (conn : ClientConn) (frame : Option Frame) : ClientConn → List Frame → Prop
  | stay : ClientMove conn frame conn []
  | fail : ClientMove conn frame { conn with phase := .failed } []
  | prove {cn sn : Received} {f : Frame} {phase : ClientPhase} :
      conn.phase = .challenge cn → frame = some f →
      (∀ a ∈ (macOf 32 conn.security.sharedSecret (proofText .server cn sn)).1, a ∈ f.payload) →
      phase = .ok cn sn ∨ phase = .failed →
      ClientMove conn frame { conn with phase, proved := some (cn, sn) }
        [authFrame AUTH_CLIENT_PROOF
          (macOf 32 conn.security.sharedSecret (proofText .client cn sn)).1]
  | finish {cn sn : Received} : conn.phase = .ok cn sn →
      ClientMove conn frame { conn with phase := .returned (some (cn, sn)) } []

theorem ClientConn.onChallenge_move {conn : ClientConn} (hphase : conn.phase = .challenge cn)
    (frame : Frame) (sendOk : Bool) :
    ClientMove conn (some frame) (conn.onChallenge cn frame sendOk).1
      (conn.onChallenge cn frame sendOk).2 := by
  unfold onChallenge
  split
  · exact .fail
  split
  · exact .fail
  rename_i challenge hrecv
  simp only
  split
  · exact .fail
  rename_i hvalid
  rw [Bool.not_eq_true, Bool.not_eq_false'] at hvalid
  split
  · exact .fail
  rename_i proof hproof
  rw [computeProof_some hproof]
  refine .prove hphase rfl ?_ (by cases sendOk <;> simp)
  rw [← validateProof_true hvalid, ← recvAll_some hrecv]
  exact fun a ha => mem_of_mem_drop ha

theorem ClientConn.receive_move (conn : ClientConn) (frame : Option Frame) (sendOk : Bool) :
    ClientMove conn frame (conn.receive frame sendOk).1 (conn.receive frame sendOk).2 := by
  unfold receive
  split
  next hphase =>
    exact onChallenge_move hphase _ _
  next hphase =>
    unfold onResponse
    split
    · exact .finish hphase
    · exact .fail
  · exact .fail
  · exact .fail
  · exact .stay

/-! ## Runs -/

structure Agreement (known : Secret → Prop) (s : World) : Prop where
  honest : Honest s
  servers : ∀ (i : Nat) (conn : ServerConn), s.servers[i]? = some conn → conn.Ok known s
  clients : ∀ (j : Nat) (conn : ClientConn), s.clients[j]? = some conn → conn.Ok known s

theorem Honest.empty : Honest {} where
  wire := nofun
  own := by rintro (_ | _) _ _ _ ⟨⟩
  drawn := by rintro (_ | _) _ _ _ ⟨⟩
  distinct := by rintro (_ | _) _ _ _ _ _ ⟨⟩

theorem getElem?_set_of_some {l : List α} {a : α} (h : l[i]? = some a) (b : α) (j : Nat) :
    (l.set i b)[j]? = if j = i then some b else l[j]? := by
  grind

theorem getElem?_append_one (l : List α) (b : α) (j : Nat) :
    (l ++ [b])[j]? = if j = l.length then some b else l[j]? := by
  grind

theorem payloads_auth (type : Nat) (payload : Bytes) :
    payloads [authFrame type payload] = payload := append_nil _

theorem ServerMove.party {conn' : ServerConn} (h : ServerMove conn frame nonce conn' out)
    (hhello : conn.phase = .hello → conn.proved = none) :
    PartyMove .server conn.party conn'.party nonce (payloads out) := by
  cases h with
  | stay => exact .refl _ _
  | close hout =>
    rw [hout]
    exact .refl _ _
  | enter => exact .refl _ _
  | spoil hphase hn =>
    have hnone := hhello hphase
    exact ⟨rfl, fun _ h => h, fun _ h => absurd (hnone.symm.trans h) nofun,
      fun _ h => .inr (hn.trans h), nofun⟩
  | @challenge cn n phase hphase hn =>
    have hnone := hhello hphase
    refine ⟨rfl, fun _ h => absurd (hnone.symm.trans h) nofun, ?_, fun _ h => .inr (hn.trans h), ?_⟩
    · rintro _ ⟨⟩
      exact .inr rfl
    intro a ha
    rw [payloads_auth, mem_append] at ha
    rcases ha with ha | ha
    · obtain ⟨b, -, rfl⟩ := mem_map.mp ha
      exact .inl ⟨b, rfl⟩
    · obtain ⟨k, rfl⟩ := mem_macOf ha
      exact .inr ⟨cn, plainBlock n, k, rfl, rfl⟩

theorem ClientMove.party {conn conn' : ClientConn} {frame : Option Frame} {out : List Frame}
    (h : ClientMove conn frame conn' out)
    (hhello : ∀ cn, conn.phase = .challenge cn →
      conn.proved = none ∧ conn.clientNonce.map plainBlock = some cn) :
    PartyMove .client conn.party conn'.party none (payloads out) := by
  cases h with
  | stay | fail | finish => exact .refl _ _
  | @prove cn sn f phase hphase =>
    obtain ⟨hnone, hnonce⟩ := hhello cn hphase
    refine ⟨rfl, fun _ h => absurd (hnone.symm.trans h) nofun, ?_, fun _ h => .inl h, ?_⟩
    · rintro _ ⟨⟩
      exact .inr hnonce
    intro a ha
    rw [payloads_auth] at ha
    obtain ⟨k, rfl⟩ := mem_macOf ha
    exact .inr ⟨cn, sn, k, rfl, rfl⟩

end

section

variable {known : Secret → Prop} {s : World}

variable {conn : ServerConn} {frame : Option Frame} {nonce : Option RpcAuthNonce} {out : List Frame}
  {i : Nat} {q : Party} {i' : Nat} {p p' : Party}

/-- A server connection does in its new phase what the phase says. -/
theorem ServerMove.ok {conn' : ServerConn} (h : ServerMove conn frame nonce conn' out)
    (hs : Honest s) (hok : conn.Ok known s)
    (hframe : ∀ f, frame = some f → ∀ a ∈ f.payload, SymByte.Derivable known s.wire a) :
    conn'.Ok known s := by
  cases h with
  | stay => exact hok
  | close | spoil => trivial
  | challenge _ _ hnext =>
    rcases hnext with rfl | rfl
    · rfl
    · trivial
  | @enter cn sn f phase hphase hf hproof hnext =>
    rw [ServerConn.Ok, hphase] at hok
    rcases hnext with rfl | rfl
    · exact ⟨hok, hs.unforged (hframe f hf) fun a ha => hproof ▸ ha⟩
    · trivial

theorem ClientMove.ok {conn conn' : ClientConn} (h : ClientMove conn frame conn' out)
    (hs : Honest s) (hok : conn.Ok known s)
    (hframe : ∀ f, frame = some f → ∀ a ∈ f.payload, SymByte.Derivable known s.wire a) :
    conn'.Ok known s := by
  cases h with
  | stay => exact hok
  | fail => trivial
  | @prove cn sn f phase hphase hf hproof hnext =>
    rcases hnext with rfl | rfl
    · exact ⟨rfl, hs.unforged (hframe f hf) hproof⟩
    · trivial
  | finish hphase =>
    rw [ClientConn.Ok, hphase] at hok
    exact hok

theorem ClientConn.dial_spec (security : RpcSecurityConfig) (nonce : Option RpcAuthNonce)
    (sendOk : Bool) :
    let r := dial security nonce sendOk
    r.1.Ok known s ∧ PartyMove .client ⟨security.sharedSecret, none, none⟩ r.1.party nonce
      (payloads r.2) := by
  unfold dial
  split
  · exact ⟨trivial, .refl _ _⟩
  split
  next henabled =>
    refine ⟨?_, .refl _ _⟩
    simpa [Ok] using henabled
  cases nonce with
  | none => exact ⟨trivial, .refl _ _⟩
  | some n =>
    refine ⟨?_, rfl, nofun, nofun, fun _ h => .inr h, ?_⟩
    · cases sendOk with
      | true => exact ⟨rfl, rfl⟩
      | false => trivial
    intro a ha
    rw [payloads_auth] at ha
    obtain ⟨b, -, rfl⟩ := mem_map.mp ha
    exact .inl ⟨b, rfl⟩

section

variable (h : Agreement known s)

include h

theorem Agreement.move {s' : World} {role : Role} (hm : Move s s' role i p)
    (hservers : ∀ (j : Nat) (c : ServerConn), s'.servers[j]? = some c → c.Ok known s)
    (hclients : ∀ (j : Nat) (c : ClientConn), s'.clients[j]? = some c → c.Ok known s) :
    Agreement known s' :=
  ⟨h.honest.move hm, fun j c hc => (hservers j c hc).mono fun _ _ _ _ => hm.proved,
    fun j c hc => (hclients j c hc).mono fun _ _ _ _ => hm.proved⟩

theorem Agreement.ofServer {out : Bytes} {servers : List ServerConn}
    (hservers : ∀ j, servers[j]? = if j = i then some conn else s.servers[j]?)
    (hq : s.Begins .server i q) (hmove : PartyMove .server q conn.party nonce out)
    (hfresh : ∀ n, nonce = some n → n ∉ s.nonces)
    (hok : conn.Ok known s) : Agreement known
      { s with servers, wire := s.wire ++ out, nonces := s.nonces ++ nonce.toList } := by
  refine h.move (.ofParty h.honest hq hmove ?_ rfl rfl hfresh) (fun j c hc => ?_) h.clients
  · rintro (_ | _) j
    · simp only [World.party, hservers, true_and]
      split
      all_goals rfl
    · rfl
  · rw [hservers] at hc
    split at hc
    · exact Option.some.inj hc ▸ hok
    · exact h.servers j c hc

theorem Agreement.ofClient {conn : ClientConn} {out : Bytes} {clients : List ClientConn}
    (hclients : ∀ j, clients[j]? = if j = i then some conn else s.clients[j]?)
    (hq : s.Begins .client i q) (hmove : PartyMove .client q conn.party nonce out)
    (hfresh : ∀ n, nonce = some n → n ∉ s.nonces)
    (hok : conn.Ok known s) : Agreement known
      { s with clients, wire := s.wire ++ out, nonces := s.nonces ++ nonce.toList } := by
  refine h.move (.ofParty h.honest hq hmove ?_ rfl rfl hfresh) h.servers fun j c hc => ?_
  · rintro (_ | _) j
    · rfl
    · simp only [World.party, hclients, true_and]
      split
      all_goals rfl
  · rw [hclients] at hc
    split at hc
    · exact Option.some.inj hc ▸ hok
    · exact h.clients j c hc

theorem Agreement.step {e : Event} (he : Admissible known s e) : Agreement known (s.step e) := by
  cases e with
  | accept security =>
    have hok : (accept security).Ok known s := by
      unfold accept ServerConn.Ok
      cases security.enabled with
      | true | false => rfl
    have := h.ofServer (getElem?_append_one s.servers (accept security))
      (.inr ⟨by simp [World.party], rfl, rfl⟩) (.refl (accept security).party none)
      nofun hok
    rwa [append_nil, Option.toList_none, append_nil] at this
  | dial security nonce sendOk =>
    obtain ⟨hok, hmove⟩ := dial_spec security nonce sendOk
    exact h.ofClient (getElem?_append_one _ _) (.inr ⟨by simp [World.party], rfl, rfl⟩) hmove
      he.fresh hok
  | toServer i frame nonce sendOk =>
    simp only [World.step]
    split
    · exact h
    rename_i conn hconn
    have hmove := conn.receive_move frame nonce sendOk
    have hok := h.servers i conn hconn
    refine h.ofServer (getElem?_set_of_some hconn _) (.inl (by rw [World.party, hconn]; rfl))
      (hmove.party fun hphase => ?_) he.fresh (hmove.ok h.honest hok he.derivable)
    rwa [ServerConn.Ok, hphase] at hok
  | toClient j frame sendOk =>
    simp only [World.step]
    split
    · exact h
    rename_i conn hconn
    have hmove := conn.receive_move frame sendOk
    have hok := h.clients j conn hconn
    have := h.ofClient (getElem?_set_of_some hconn _) (.inl (by rw [World.party, hconn]; rfl))
      (hmove.party fun cn hphase => by rwa [ClientConn.Ok, hphase] at hok) nofun
      (hmove.ok h.honest hok he.derivable)
    rwa [Option.toList_none, append_nil] at this

end

theorem Agreement.run {events : List Event} (h : machine.Admits (Admissible known) {} events) :
    Agreement known (machine.run {} events) :=
  machine.invariant_admits (fun _ _ hs he => hs.step he) ⟨.empty, nofun, nofun⟩ h

/-- Two connections of a role with the same own nonce are one. -/
theorem Honest.distinct_own (h : Honest s) (role : Role) {nonces nonces' : Received × Received}
    (hp : s.party role i = some p) (hp' : s.party role i' = some p')
    (hproved : p.proved = some nonces) (hproved' : p'.proved = some nonces')
    (hown : role.own nonces = role.own nonces') : i = i' := by
  obtain ⟨n, hn, hblock⟩ := Option.map_eq_some_iff.mp (h.own role i p _ hp hproved)
  obtain ⟨n', hn', hblock'⟩ := Option.map_eq_some_iff.mp (h.own role i' p' _ hp' hproved')
  have hnn : n = n' := plainBlock_inj (hblock.trans (hown.trans hblock'.symm))
  exact h.distinct role i i' p p' n hp hp' hn (hnn ▸ hn')

/-- A proof is sent by one connection only: that of its role and nonces. -/
theorem Honest.sole (h : Honest s) {role role' : Role} {i i' : Nat} {p p' : Party}
    {cn sn cn' sn' : Received} (hp : s.party role i = some p) (hp' : s.party role' i' = some p')
    (hproved : p.proved = some (cn, sn)) (hproved' : p'.proved = some (cn', sn'))
    (hmac : macOf 32 p.secret (proofText role cn sn) =
      macOf 32 p'.secret (proofText role' cn' sn')) : role = role' ∧ i = i' := by
  obtain ⟨-, htext⟩ := macOf_inj (by decide) hmac
  obtain ⟨rfl, rfl, rfl⟩ := proofText_inj htext
  exact ⟨rfl, h.distinct_own role hp hp' hproved hproved' rfl⟩

end

/-- An authenticated connection has a partner in the other role, which sent its proof for exactly
the same nonces, whatever an attacker without the secret sends. A proof is sent by one connection
and opens one. -/
theorem rpc_mutual_authentication {known : Secret → Prop} {events : List Event}
    (h : machine.Admits (Admissible known) {} events) :
    let s := machine.run {} events
    (∀ (i : Nat) (conn : ServerConn) nonces, s.servers[i]? = some conn →
      conn.security.enabled = true → conn.phase = .serving nonces →
      ∃ cn sn, nonces = some (cn, sn) ∧
        (¬known conn.security.sharedSecret → s.Proved .client conn.security.sharedSecret cn sn) ∧
        ∀ (i' : Nat) (conn' : ServerConn), s.servers[i']? = some conn' →
          conn'.phase = .serving (some (cn, sn)) → i' = i) ∧
    (∀ (j : Nat) (conn : ClientConn) nonces, s.clients[j]? = some conn →
      conn.security.enabled = true → conn.phase = .returned nonces →
      ∃ cn sn, nonces = some (cn, sn) ∧
        (¬known conn.security.sharedSecret → s.Proved .server conn.security.sharedSecret cn sn) ∧
        ∀ (j' : Nat) (conn' : ClientConn), s.clients[j']? = some conn' →
          conn'.phase = .returned (some (cn, sn)) → j' = j) ∧
    (∀ role role' i i' p p' cn sn cn' sn', s.party role i = some p → s.party role' i' = some p' →
      p.proved = some (cn, sn) → p'.proved = some (cn', sn') →
      macOf 32 p.secret (proofText role cn sn) = macOf 32 p'.secret (proofText role' cn' sn') →
      role = role' ∧ i = i') := by
  intro s
  have hs : Agreement known s := .run h
  refine ⟨?_, ?_, fun _ _ _ _ _ _ _ _ _ _ => hs.honest.sole⟩
  · intro i conn nonces hconn henabled hphase
    have hok := hs.servers i conn hconn
    rw [ServerConn.Ok, hphase] at hok
    match nonces, hok with
    | none, hok => exact absurd (henabled.symm.trans hok) (by decide)
    | some (cn, sn), hok =>
      refine ⟨cn, sn, rfl, hok.2, fun i' conn' hconn' hphase' => ?_⟩
      have hok' := hs.servers i' conn' hconn'
      rw [ServerConn.Ok, hphase'] at hok'
      exact hs.honest.distinct_own .server (by rw [World.party, hconn']; rfl)
        (by rw [World.party, hconn]; rfl) hok'.1 hok.1 rfl
  · intro j conn nonces hconn henabled hphase
    have hok := hs.clients j conn hconn
    rw [ClientConn.Ok, hphase] at hok
    match nonces, hok with
    | none, hok => exact absurd (henabled.symm.trans hok) (by decide)
    | some (cn, sn), hok =>
      refine ⟨cn, sn, rfl, hok.2, fun j' conn' hconn' hphase' => ?_⟩
      have hok' := hs.clients j' conn' hconn'
      rw [ClientConn.Ok, hphase'] at hok'
      exact hs.honest.distinct_own .client (by rw [World.party, hconn']; rfl)
        (by rw [World.party, hconn]; rfl) hok'.1 hok.1 rfl

/-! ## A handshake that succeeds -/

def challengeBytes (secret : Secret) (cn sn : Received) : Bytes :=
  sn.1 ++ (macOf 32 secret (proofText .server cn sn)).1

def handshake (config : RpcSecurityConfig) (n m : RpcAuthNonce) : List Event :=
  [.accept config, .dial config (some n) true,
   .toServer 0 (some (authFrame AUTH_CLIENT_HELLO (plainBlock n).1)) (some m) true,
   .toClient 0 (some (authFrame AUTH_SERVER_CHALLENGE
     (challengeBytes config.sharedSecret (plainBlock n) (plainBlock m)))) true,
   .toServer 0 (some (authFrame AUTH_CLIENT_PROOF (macOf 32 config.sharedSecret
     (proofText .client (plainBlock n) (plainBlock m))).1)) none true,
   .toClient 0 (some (authFrame AUTH_OK)) true]

/-- The attacker only repeats bytes of the wire, and no nonce is drawn twice. -/
def repeatsOnly : World → List Event → Bool
  | _, [] => true
  | s, e :: es =>
    (e.frame.all fun f => f.payload.all fun a => a ∈ s.wire) &&
      (e.nonce.all fun n => n ∉ s.nonces) && repeatsOnly (s.step e) es

theorem admits_of_repeatsOnly (known : Secret → Prop) (s : World) (events : List Event)
    (h : repeatsOnly s events) : machine.Admits (Admissible known) s events := by
  induction events generalizing s with
  | nil => trivial
  | cons e es ih =>
    simp only [repeatsOnly, Bool.and_eq_true, Option.all_eq_true, all_eq_true,
      decide_eq_true_eq] at h
    exact ⟨⟨fun f hf a ha => .seen (h.1.1 f hf a ha), h.1.2⟩, ih _ h.2⟩

def zeroConfig : RpcSecurityConfig := { enabled := true, sharedSecret := replicate 32 0 }

/-- The nonces of the client and the server. -/
def handshakeNonces : Received × Received :=
  (plainBlock (Vector.replicate 32 1), plainBlock (Vector.replicate 32 2))

/-- Both ends of the handshake have a partner. -/
theorem rpc_mutual_authentication_handshake :
    let s := machine.run {} (handshake zeroConfig (Vector.replicate 32 1) (Vector.replicate 32 2))
    s.Proved .client zeroConfig.sharedSecret (plainBlock (Vector.replicate 32 1))
      (plainBlock (Vector.replicate 32 2)) ∧
    s.Proved .server zeroConfig.sharedSecret (plainBlock (Vector.replicate 32 1))
      (plainBlock (Vector.replicate 32 2)) := by
  intro s
  have hauth := rpc_mutual_authentication (admits_of_repeatsOnly (fun _ => False) {}
    (handshake zeroConfig (Vector.replicate 32 1) (Vector.replicate 32 2)) (by decide +kernel))
  have hserver : s.servers[0]? = some ⟨zeroConfig, .serving (some handshakeNonces),
      some (Vector.replicate 32 2), some handshakeNonces⟩ := by
    decide +kernel
  have hclient : s.clients[0]? = some ⟨zeroConfig, .returned (some handshakeNonces),
      some (Vector.replicate 32 1), some handshakeNonces⟩ := by
    decide +kernel
  obtain ⟨cn, sn, heq, hproved, -⟩ := hauth.1 0 _ _ hserver rfl rfl
  obtain ⟨cn', sn', heq', hproved', -⟩ := hauth.2.1 0 _ _ hclient rfl rfl
  cases heq
  cases heq'
  exact ⟨hproved id, hproved' id⟩

end Zepto.Cluster.RpcAuth
