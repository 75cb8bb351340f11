import Zepto.Lib.Machine
import Zepto.Lib.SymbolicMac

/-!
# Authentication of RPC connections

The handshake of protocol v2: the client sends a nonce, the server answers with a nonce of its own
and a proof, the client answers with its proof. A proof is the HMAC of the role's domain and both
nonces under the shared secret. `handle_connection` and `acquire` are cut where they wait for the
peer; what arrives there is a frame of the attacker's choice, or nothing.
-/

namespace Zepto.Cluster.RpcAuth

open Zepto.Lib

abbrev Secret := List Byte

abbrev Bytes := List (SymByte Secret)

/-- `RpcAuthNonce` as it is generated. -/
abbrev RpcAuthNonce := Vector Byte 32

/-- 32 bytes as they are received: a nonce or a proof. -/
abbrev Received := Block Secret 32

def RPC_AUTH_MIN_SECRET_SIZE : Nat := 32
def RPC_AUTH_NONCE_SIZE : Nat := 32
def RPC_AUTH_PROOF_SIZE : Nat := 32
def RPC_AUTH_CLIENT_HELLO_SIZE : Nat := RPC_AUTH_NONCE_SIZE
def RPC_AUTH_SERVER_CHALLENGE_SIZE : Nat := RPC_AUTH_NONCE_SIZE + RPC_AUTH_PROOF_SIZE
def RPC_AUTH_CLIENT_PROOF_SIZE : Nat := RPC_AUTH_PROOF_SIZE
def kMaxSecretFileBytes : Nat := 4096

def AUTH_CLIENT_HELLO : Nat := 15
def AUTH_OK : Nat := 16
def AUTH_REJECT : Nat := 17
def AUTH_SERVER_CHALLENGE : Nat := 36
def AUTH_CLIENT_PROOF : Nat := 37

/-- The fields of `RpcHeader` the handshake reads. -/
structure RpcHeader where
  magic : Nat := 0x41504558
  type : Nat := 0
  payloadLen : Nat := 0
  deriving DecidableEq

structure Frame where
  header : RpcHeader
  payload : Bytes := []

structure RpcSecurityConfig where
  enabled : Bool := false
  sharedSecret : Secret := []
  configurationError : String := ""
  deriving DecidableEq

/-- `validation_error`, built with OpenSSL. -/
def RpcSecurityConfig.validationError (config : RpcSecurityConfig) : String :=
  if !config.enabled then ""
  else if config.configurationError ≠ "" then config.configurationError
  else if config.sharedSecret.length < RPC_AUTH_MIN_SECRET_SIZE then
    "cluster RPC shared secret must contain at least 32 bytes"
  else if config.sharedSecret.length > kMaxSecretFileBytes then
    "cluster RPC shared secret exceeds 4096 bytes"
  else ""

/-! ## Proofs -/

inductive Role
  | server | client
  deriving DecidableEq

/-- `kServerProofDomain` and `kClientProofDomain`. -/
def Role.domain : Role → String
  | server => "zeptodb-rpc-auth-v2/server-proof"
  | client => "zeptodb-rpc-auth-v2/client-proof"

def asciiBytes (s : String) : Bytes := s.toList.map fun c => .plain (.ofNat 8 c.toNat)

def proofText (role : Role) (clientNonce serverNonce : Received) : Bytes :=
  asciiBytes role.domain ++ clientNonce.1 ++ serverNonce.1

def computeProof (secret : Secret) (role : Role) (clientNonce serverNonce : Received) :
    Option Received :=
  if secret.length < RPC_AUTH_MIN_SECRET_SIZE ∨ secret.length > 2147483647 then none
  else some (macOf 32 secret (proofText role clientNonce serverNonce))

/-- `rpc_validate_server_proof` and `rpc_validate_client_proof`. -/
def validateProof (secret : Secret) (role : Role) (clientNonce serverNonce proof : Received) :
    Bool :=
  match computeProof secret role clientNonce serverNonce with
  | none => false
  | some expected => expected = proof

/-- `recv_all` of the payload, which may be cut short. -/
def recvAll (n : Nat) (payload : Bytes) : Option (Block Secret n) :=
  if h : payload.length = n then some ⟨payload, h⟩ else none

def splitChallenge (challenge : Block Secret RPC_AUTH_SERVER_CHALLENGE_SIZE) :
    Received × Received :=
  (⟨challenge.1.take 32, by rw [List.length_take, challenge.2]; rfl⟩,
    ⟨challenge.1.drop 32, by rw [List.length_drop, challenge.2]; rfl⟩)

def RpcHeader.isAuth (header : RpcHeader) (type payloadLen : Nat) : Bool :=
  header.magic = 0x41504558 && header.type = type && header.payloadLen = payloadLen

/-- `send_auth_header`, with a payload behind it. -/
def authFrame (type : Nat) (payload : Bytes := []) : Frame :=
  { header := { type, payloadLen := payload.length }, payload }

def rejectAuth : Frame := authFrame AUTH_REJECT

/-! ## The server -/

/-- Where `handle_connection` stands; `serving` is the request loop, with the nonces of a
handshake. -/
inductive ServerPhase
  | hello
  | proof (clientNonce serverNonce : Received)
  | serving (nonces : Option (Received × Received))
  | closed
  deriving DecidableEq

structure ServerConn where
  security : RpcSecurityConfig
  phase : ServerPhase
  /-- The nonce drawn for the connection. -/
  serverNonce : Option RpcAuthNonce := none
  /-- The nonces whose server proof was sent: a record for the statements, no code reads it. -/
  proved : Option (Received × Received) := none
  deriving DecidableEq

/-- The start of `handle_connection`. -/
def ServerConn.accept (security : RpcSecurityConfig) : ServerConn :=
  { security, phase := if security.enabled then .hello else .serving none }

/-- The hello has arrived; `nonce` is drawn, and `sendOk` whether the challenge could be sent. -/
def ServerConn.onHello (conn : ServerConn) (frame : Frame) (nonce : Option RpcAuthNonce)
    (sendOk : Bool) : ServerConn × List Frame :=
  if !frame.header.isAuth AUTH_CLIENT_HELLO RPC_AUTH_CLIENT_HELLO_SIZE then
    ({ conn with phase := .closed }, [rejectAuth])
  else
    match recvAll 32 frame.payload with
    | none => ({ conn with phase := .closed }, [])
    | some clientNonce =>
      match nonce with
      | none => ({ conn with phase := .closed }, [rejectAuth])
      | some serverNonce =>
        match computeProof conn.security.sharedSecret .server clientNonce
            (plainBlock serverNonce) with
        | none => ({ conn with phase := .closed, serverNonce }, [rejectAuth])
        | some serverProof =>
          ({ conn with
              phase := if sendOk then .proof clientNonce (plainBlock serverNonce) else .closed
              serverNonce
              proved := some (clientNonce, plainBlock serverNonce) },
            [authFrame AUTH_SERVER_CHALLENGE ((plainBlock serverNonce).1 ++ serverProof.1)])

def ServerConn.onProof (conn : ServerConn) (clientNonce serverNonce : Received) (frame : Frame)
    (sendOk : Bool) : ServerConn × List Frame :=
  if !frame.header.isAuth AUTH_CLIENT_PROOF RPC_AUTH_CLIENT_PROOF_SIZE then
    ({ conn with phase := .closed }, [rejectAuth])
  else
    match recvAll 32 frame.payload with
    | none => ({ conn with phase := .closed }, [])
    | some clientProof =>
      if !validateProof conn.security.sharedSecret .client clientNonce serverNonce clientProof then
        ({ conn with phase := .closed }, [rejectAuth])
      else
        ({ conn with
            phase := if sendOk then .serving (some (clientNonce, serverNonce)) else .closed },
          [authFrame AUTH_OK])

/-- A frame or the end of the connection arrives. The request loop is not followed further. -/
def ServerConn.receive (conn : ServerConn) (frame : Option Frame) (nonce : Option RpcAuthNonce)
    (sendOk : Bool) : ServerConn × List Frame :=
  match conn.phase, frame with
  | .hello, some frame => conn.onHello frame nonce sendOk
  | .proof clientNonce serverNonce, some frame =>
    conn.onProof clientNonce serverNonce frame sendOk
  | _, none => ({ conn with phase := .closed }, [])
  | _, _ => (conn, [])

/-! ## The client -/

/-- Where `acquire` stands with a connection it opened. -/
inductive ClientPhase
  | challenge (clientNonce : Received)
  | ok (clientNonce serverNonce : Received)
  | returned (nonces : Option (Received × Received))
  | failed
  deriving DecidableEq

structure ClientConn where
  security : RpcSecurityConfig
  phase : ClientPhase
  /-- The nonce drawn for the connection. -/
  clientNonce : Option RpcAuthNonce := none
  /-- The nonces whose client proof was sent: a record for the statements, no code reads it. -/
  proved : Option (Received × Received) := none
  deriving DecidableEq

/-- `acquire` with no idle connection in the pool, up to the hello. -/
def ClientConn.dial (security : RpcSecurityConfig) (nonce : Option RpcAuthNonce) (sendOk : Bool) :
    ClientConn × List Frame :=
  if security.validationError ≠ "" then ({ security, phase := .failed }, [])
  else if !security.enabled then ({ security, phase := .returned none }, [])
  else
    match nonce with
    | none => ({ security, phase := .failed }, [])
    | some clientNonce =>
      ({ security,
         phase := if sendOk then .challenge (plainBlock clientNonce) else .failed
         clientNonce },
        [authFrame AUTH_CLIENT_HELLO (plainBlock clientNonce).1])

def ClientConn.onChallenge (conn : ClientConn) (clientNonce : Received) (frame : Frame)
    (sendOk : Bool) : ClientConn × List Frame :=
  if !frame.header.isAuth AUTH_SERVER_CHALLENGE RPC_AUTH_SERVER_CHALLENGE_SIZE then
    ({ conn with phase := .failed }, [])
  else
    match recvAll RPC_AUTH_SERVER_CHALLENGE_SIZE frame.payload with
    | none => ({ conn with phase := .failed }, [])
    | some challenge =>
      let (serverNonce, serverProof) := splitChallenge challenge
      if !validateProof conn.security.sharedSecret .server clientNonce serverNonce serverProof then
        ({ conn with phase := .failed }, [])
      else
        match computeProof conn.security.sharedSecret .client clientNonce serverNonce with
        | none => ({ conn with phase := .failed }, [])
        | some clientProof =>
          ({ conn with
              phase := if sendOk then .ok clientNonce serverNonce else .failed
              proved := some (clientNonce, serverNonce) },
            [authFrame AUTH_CLIENT_PROOF clientProof.1])

def ClientConn.onResponse (conn : ClientConn) (clientNonce serverNonce : Received) (frame : Frame) :
    ClientConn × List Frame :=
  if frame.header.isAuth AUTH_OK 0 then
    ({ conn with phase := .returned (some (clientNonce, serverNonce)) }, [])
  else ({ conn with phase := .failed }, [])

def ClientConn.receive (conn : ClientConn) (frame : Option Frame) (sendOk : Bool) :
    ClientConn × List Frame :=
  match conn.phase, frame with
  | .challenge clientNonce, some frame => conn.onChallenge clientNonce frame sendOk
  | .ok clientNonce serverNonce, some frame => conn.onResponse clientNonce serverNonce frame
  | .challenge _, none | .ok _ _, none => ({ conn with phase := .failed }, [])
  | _, _ => (conn, [])

/-! ## The connections and the attacker -/

/-- All connections, the bytes they have sent and the nonces drawn. -/
structure World where
  servers : List ServerConn := []
  clients : List ClientConn := []
  wire : Bytes := []
  nonces : List RpcAuthNonce := []

/-- What the attacker brings about: it opens connections, lets clients dial, and decides what each
receives and when. -/
inductive Event
  | accept (security : RpcSecurityConfig)
  | dial (security : RpcSecurityConfig) (nonce : Option RpcAuthNonce) (sendOk : Bool)
  | toServer (i : Nat) (frame : Option Frame) (nonce : Option RpcAuthNonce) (sendOk : Bool)
  | toClient (j : Nat) (frame : Option Frame) (sendOk : Bool)

def payloads (frames : List Frame) : Bytes := frames.flatMap Frame.payload

def World.step (s : World) : Event → World
  | .accept security => { s with servers := s.servers ++ [.accept security] }
  | .dial security nonce sendOk =>
    let (conn, out) := ClientConn.dial security nonce sendOk
    { s with
      clients := s.clients ++ [conn]
      wire := s.wire ++ payloads out
      nonces := s.nonces ++ nonce.toList }
  | .toServer i frame nonce sendOk =>
    match s.servers[i]? with
    | none => s
    | some conn =>
      let (conn, out) := conn.receive frame nonce sendOk
      { s with
        servers := s.servers.set i conn
        wire := s.wire ++ payloads out
        nonces := s.nonces ++ nonce.toList }
  | .toClient j frame sendOk =>
    match s.clients[j]? with
    | none => s
    | some conn =>
      let (conn, out) := conn.receive frame sendOk
      { s with clients := s.clients.set j conn, wire := s.wire ++ payloads out }

def machine : Machine World Event Unit := ⟨fun s e => ((), s.step e)⟩

def Event.frame : Event → Option Frame
  | accept _ | dial .. => none
  | toServer _ frame _ _ | toClient _ frame _ => frame

def Event.nonce : Event → Option RpcAuthNonce
  | accept _ | toClient .. => none
  | dial _ nonce _ | toServer _ _ nonce _ => nonce

/-- The attacker sends what it can derive; nonces are fresh. -/
structure Admissible (known : Secret → Prop) (s : World) (e : Event) : Prop where
  derivable : ∀ frame, e.frame = some frame → ∀ a ∈ frame.payload, SymByte.Derivable known s.wire a
  fresh : ∀ nonce, e.nonce = some nonce → nonce ∉ s.nonces

end Zepto.Cluster.RpcAuth
