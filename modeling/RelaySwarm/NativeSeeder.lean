import RelaySwarm.IndexMap
import RelaySwarm.ObjectTransfer

/-!
A seeder of one object over a native transport. A dial that is signalled gives the
transport key it names a grant; the first connection from that key takes the grant away
and is served with the object, if its request repeats what was granted. Signals come
from the session that checked their shape and their signer, and sockets are numbered as
they are handled.
-/
namespace RelaySwarm.NativeSeeder
open JsonText ObjectTransfer

def nativeTransport : Text := lit "hyperdht-v1"
def maxAuthorizationMs : Nat := 60000
def maxHandled : Nat := 256

structure Config where
  maxAuthorizations : Nat := 256
  maxConnections : Nat := 16

/-- A key of the grants: a text, or an object that is like no other. -/
inductive Key where
  | text (text : Text)
  | object (serial : Nat)
deriving DecidableEq

/-- A grant. Each is an object of its own, by the serial of the dial that was accepted. -/
structure Authorization where
  serial : Nat
  transportPublicKey : Key
  nostrPubkey : Text
  requestId : Text
  sha256 : Text
  size : Nat
  expiresAt : Nat
deriving DecidableEq
def Authorization.identity (authorization : Authorization) : Identity :=
  ⟨authorization.requestId,authorization.sha256,authorization.size⟩

/-- How far the server of a socket is: its first frame is not there yet, it is there, or
    its answer is being written. -/
inductive Stage where
  | reading (pending : Bytes)
  | answering (frame : Frame)
  | sending (left : List Bytes)
  | ended
/-- A socket that is handled, with its grant, the chunks that were read and the bytes
    that were written. -/
structure Socket where
  key : Text
  authorization : Authorization
  stage : Stage
  destroyed : Bool
  received : List Bytes
  output : Bytes

structure State where
  closed : Bool
  authorizations : IndexMap Key Authorization
  /-- The sockets handled that have not been closed. -/
  connections : List Nat
  sockets : List Socket
  /-- When a dial that was accepted is forgotten. -/
  handled : IndexMap Text Nat
  /-- The dials accepted so far. -/
  accepted : Nat
def State.new : State := ⟨false,.empty,[],[],.empty,0⟩

structure Signal where
  sender : Text
  type : Text
  transport : Text
  requestId : Text
  payload : List (Text × Value)

/-! ### Grants -/

/-- What a grant is asked for. The key is as the dial names it, if it names one. -/
structure Request where
  transportPublicKey : Option Value
  nostrPubkey : Text
  requestId : Text
  sha256 : Text
  size : Nat
  lifetimeMs : Nat := 30000
/-- A text is a key of the grants as it is; what else matches the pattern is an object. -/
def keyOf (serial : Nat) : Option Value → Key
  | some (.string text) => .text text
  | _ => .object serial
/-- The state after a grant, or with the error that refuses it. The grants that expired
    are gone either way once the request is valid. -/
def authorize (config : Config) (s : State) (request : Request) (now : Nat) : State × Option String :=
  if s.closed then (s,some "Native transport is closed.")
  else if (request.transportPublicKey.bind patternText).any hex64 = false ∨ hex64 request.nostrPubkey = false ∨
      hex64 request.sha256 = false then (s,some "Invalid native transport authorization.")
  else if request.requestId.length < 8 ∨ 64 < request.requestId.length then
    (s,some "Invalid native transport request identifier.")
  else if 9007199254740991 < request.size ∨ defaultMaxObjectBytes < request.size then
    (s,some "Invalid native transport object size.")
  else if request.lifetimeMs < 1000 ∨ maxAuthorizationMs < request.lifetimeMs then
    (s,some "Invalid native transport authorization lifetime.")
  else
    let s := { s with authorizations := s.authorizations.retain (fun _ authorization => now < authorization.expiresAt) }
    let key := keyOf s.accepted request.transportPublicKey
    if s.authorizations.contains key = false ∧ config.maxAuthorizations ≤ s.authorizations.length then
      (s,some "Native authorization capacity reached.")
    else
      let authorization : Authorization := {
        serial := s.accepted,transportPublicKey := key,nostrPubkey := request.nostrPubkey,requestId :=
          request.requestId,
        sha256 := request.sha256,size := request.size,expiresAt := now + request.lifetimeMs }
      ({ s with authorizations := s.authorizations.insert key authorization,accepted := s.accepted + 1 },none)

section
variable (config : Config) (sha256Hex : Bytes → Text) (object : Bytes)

/-- A signal: a dial of the object is remembered for two minutes once it has a grant. The
    clock is read by the handler, and later for the grant. -/
def onSignal (s : State) (signal : Signal) (now later : Nat) : State :=
  if s.closed then s
  else if signal.type ≠ lit "dial" ∨ signal.transport ≠ nativeTransport ∨
      fieldText signal.payload (lit "sha256") ≠ some (sha256Hex object) ∨
      fieldNumber signal.payload (lit "size") ≠ some (object.length : ℚ) then s
  else
    let replayKey := signal.sender ++ 58 :: signal.requestId
    let s := { s with handled := s.handled.retain (fun _ expires => now < expires) }
    if s.handled.contains replayKey ∨ maxHandled ≤ s.handled.length then s
    else
      let request : Request := {
        transportPublicKey := field signal.payload (lit "transportPublicKey"),nostrPubkey := signal.sender,
        requestId := signal.requestId,sha256 := sha256Hex object,size := object.length }
      match authorize config s request later with
      | (s,some _) => s
      | (s,none) => { s with handled := s.handled.insert replayKey (now + 120000) }

/-- The firewall of the server: whether it refuses a key. -/
def firewall (s : State) (key : Text) (now : Nat) : State × Bool :=
  if (s.authorizations.get? (.text key)).all (fun authorization => authorization.expiresAt ≤ now) then
    ({ s with authorizations := s.authorizations.erase (.text key) },true)
  else (s,false)
/-- A connection, whose socket is destroyed if it has no grant. -/
def accept (s : State) (key : Text) (now : Nat) : State :=
  let granted := s.authorizations.get? (.text key)
  let s := { s with authorizations := s.authorizations.erase (.text key) }
  match granted with
  | none => s
  | some authorization =>
    if s.closed ∨ authorization.expiresAt ≤ now ∨ config.maxConnections ≤ s.connections.length then s
    else
      -- A grant that the server of an object refuses leaves the socket destroyed.
      let valid := (validateIdentity authorization.identity defaultMaxObjectBytes).isOk
      let socket : Socket := {
        key,authorization,stage := if valid then .reading [] else .ended,destroyed := !valid,received :=
          [],output := [] }
      { s with connections := s.connections ++ [s.sockets.length],sockets := s.sockets ++ [socket] }

/-! ### Sockets -/

/-- The reader gives up: the socket is destroyed and nothing is written. -/
def Socket.fail (socket : Socket) : Socket := { socket with stage := .ended,destroyed := true }
/-- A refusal is written on a socket that is not destroyed, and destroys it. -/
def Socket.reject (socket : Socket) : Socket :=
  if socket.destroyed then { socket with stage := .ended }
  else { socket with stage := .ended,destroyed := true,output := socket.output ++ rejection }
/-- The frames of an object, one write each. -/
def objectFrames (authorization : Identity) (bytes : Bytes) : List Bytes :=
  frameBytes FrameType.metadata (utf8Bytes (write (metadataOf authorization))) ::
    (payloads bytes).map (frameBytes FrameType.chunk) ++ [frameBytes FrameType.eof []]

def Socket.onData (socket : Socket) (chunk : Bytes) : Socket :=
  match socket.stage with
  | .reading pending =>
    if socket.destroyed then socket
    else
      let socket := { socket with received := socket.received ++ [chunk] }
      match readFrame (pending ++ chunk) with
      | .error _ => socket.fail
      | .ok (.short _) => { socket with stage := .reading (pending ++ chunk) }
      | .ok (.frame frame behind) => if behind = [] then { socket with stage := .answering frame } else socket.fail
  | _ => socket
/-- The server goes on: it answers the request, or writes one frame more. -/
def Socket.resume (socket : Socket) : Socket :=
  match socket.stage with
  | .answering frame =>
    match answerRequest sha256Hex socket.authorization.identity (fun _ => some object) defaultMaxObjectBytes frame with
    | .error _ => socket.reject
    | .ok bytes => { socket with stage := .sending (objectFrames socket.authorization.identity bytes) }
  | .sending (frame :: left) =>
    if socket.destroyed then { socket with stage := .ended }
    else { socket with stage := .sending left,output := socket.output ++ frame }
  | .sending [] => { socket with stage := .ended }
  | _ => socket
/-- An error of a socket, which ends a write that waits for it. -/
def Socket.broken (socket : Socket) : Socket :=
  match socket.stage with
  | .reading _ => socket.fail
  | .sending _ => socket.reject
  | _ => socket
def Socket.destroy (socket : Socket) : Socket := { socket with destroyed := true }
/-- The socket is closed, by either side. -/
def Socket.gone (socket : Socket) : Socket :=
  match socket.stage with
  | .reading _ => socket.fail
  | _ => socket.destroy

/-! ### Runs -/

inductive Event where
  | signal (signal : Signal) (now later : Nat)
  | firewall (key : Text) (now : Nat)
  | connection (key : Text) (now : Nat)
  | data (socket : Nat) (chunk : Bytes)
  | resume (socket : Nat)
  | broken (socket : Nat)
  /-- The timer of a transfer. -/
  | timeout (socket : Nat)
  /-- The close event of a socket. -/
  | gone (socket : Nat)
  | close

def State.update (s : State) (socket : Nat) (f : Socket → Socket) : State :=
  { s with sockets := s.sockets.modify socket f }
/-- Every grant is dropped and every socket destroyed. -/
def close (s : State) : State :=
  if s.closed then s
  else { s with
    closed := true
    authorizations := .empty
    sockets := s.sockets.mapIdx (fun i socket => if i ∈ s.connections then socket.destroy else socket)
    connections := [] }
def step (s : State) : Event → State
  | .signal signal now later => onSignal config sha256Hex object s signal now later
  | .firewall key now => (firewall s key now).1
  | .connection key now => accept config s key now
  | .data socket chunk => s.update socket (fun socket => socket.onData chunk)
  | .resume socket => s.update socket (fun socket => socket.resume sha256Hex object)
  | .broken socket => s.update socket Socket.broken
  | .timeout socket => s.update socket Socket.destroy
  | .gone socket => { s.update socket Socket.gone with connections := s.connections.filter (· ≠ socket) }
  | .close => close s
def run (events : List Event) : State := events.foldl (step config sha256Hex object) .new
end
end RelaySwarm.NativeSeeder
