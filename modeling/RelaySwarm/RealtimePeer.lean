import RelaySwarm.ObjectTransfer

/-!
A real-time peer: one data channel to one chosen peer, negotiated with the signals of a
session. Descriptions and candidates are applied one after the other by a queue of
operations, each of which may wait for calls of the native connection, and the events of
the session, of the native connection and of the host come between any two waits.
Signals come from the session that checked their envelope and their signer.
-/
namespace RelaySwarm.RealtimePeer
open JsonText ObjectTransfer

def realtimeTransport : Text := lit "webrtc-live"
def realtimeChannel : Text := lit "relayswarm-live-v1"
def maxCandidates : Nat := 128
def maxCandidateBytes : Nat := 4096
def maxSdpBytes : Nat := 6144

/-- Why a peer closes. What a host gives as any other reason is read as its own. -/
inductive Reason where
  | host | abort | timeout | protocol | signal | native | channel | send | handler
deriving DecidableEq

structure Channel where
  label : Text
  ordered : Bool
  maxRetransmits : Option Nat
  maxPacketLifeTime : Option Nat
  /-- The state that the native channel is in is open. -/
  opened : Bool
def realtime (channel : Channel) (lifetime : Option Nat) : Bool :=
  channel.label = realtimeChannel && !channel.ordered &&
    match lifetime with
    | none => channel.maxRetransmits = some 0 && channel.maxPacketLifeTime = none
    | some ms => channel.maxRetransmits = none && channel.maxPacketLifeTime = some ms

/-- What a peer is built with. Its options were checked, and the request id that is drawn
    is sixteen bytes in hex. -/
structure Config where
  peerPubkey : Text
  initiator : Bool
  requestId : Option Text
  drawn : Text
  maxPacketLifeTimeMs : Option Nat
  aborted : Bool
  named : ∀ id, requestId = some id → validRequestId id = true
  sized : drawn.length = 32
  hexed : drawn.all (fun unit => digit unit || (97 ≤ unit && unit ≤ 102)) = true

inductive Kind where
  | offer | answer
deriving DecidableEq
def Kind.text : Kind → Text
  | .offer => lit "offer"
  | .answer => lit "answer"
def kindOf (type : Text) : Option Kind :=
  if type = lit "offer" then some .offer else if type = lit "answer" then some .answer else none

/-- An operation that waits for its turn: the offer of an initiator, a description to be
    applied, or one candidate. -/
inductive Operation where
  | offer
  | description (type : Kind) (sdp : Text)
  | candidate (candidate : Value)
/-- The native call that an operation waits for. `pending` is the call for one candidate of
    those that came before the description, with the ones that are left. -/
inductive Call where
  | createOffer
  | localOffer
  | remote (type : Kind) (sdp : Text)
  | pending (type : Kind) (left : List Value)
  | createAnswer
  | localAnswer
  | candidate
/-- The operation under way, and how the call that it waits for was settled, if it was. -/
structure Running where
  call : Call
  settled : Option Bool

inductive Ready where
  | waiting | link | rejected
deriving DecidableEq
def Ready.settle (ready outcome : Ready) : Ready := if ready = .waiting then outcome else ready

/-- What a peer does to the session, to the native connection and to its host. -/
inductive Action where
  | sendSignal (type : Text) (requestId : Option Text) (payload : List (Text × Value))
  | createOffer
  | createAnswer
  | setLocalDescription
  | setRemoteDescription (type : Kind) (sdp : Text)
  | addIceCandidate (candidate : Value)
  | refuseChannel
  | closeChannel
  | closeConnection
  | onClose (reason : Reason)

structure State where
  requestId : Option Text
  closed : Bool
  closeReason : Option Reason
  started : Bool
  timer : Bool
  offerSeen : Bool
  answerSeen : Bool
  descriptionSent : Bool
  /-- The candidates that came for any request id before there was one. -/
  earlyCandidates : List (Text × Value)
  pendingCandidates : List Value
  localCandidates : List Value
  candidates : Nat
  sentCandidates : Nat
  operations : List Operation
  running : Option Running
  /-- The descriptions of the native connection. -/
  remoteDescription : Option (Kind × Text)
  localDescription : Option Text
  channel : Option Channel
  link : Bool
  ready : Ready
  /-- The signals sent so far. -/
  calls : Nat
  log : List Action

/-! ### Closing -/

def State.shut (s : State) : List Action := (if s.channel.isSome then [.closeChannel] else []) ++ [.closeConnection]
/-- The link, where there is one, closes the channel and the connection itself before the
    peer does. -/
def State.close (s : State) (reason : Reason) : State :=
  if s.closed then s
  else { s with
    closed := true,closeReason := some reason,timer := false
    pendingCandidates := [],earlyCandidates := [],localCandidates := []
    ready := s.ready.settle .rejected
    log := s.log ++ ((if s.link then s.shut else []) ++ s.shut ++ [.onClose reason]) }

/-! ### Signals out -/

section
variable (config : Config) (refuses : Nat → Bool)

/-- A signal out, which the session may refuse. -/
def State.signal (s : State) (type : Text) (payload : List (Text × Value)) : State :=
  if s.closed then s
  else
    let refused := refuses s.calls
    let s := { s with calls := s.calls + 1,log := s.log ++ [.sendSignal type s.requestId payload] }
    if refused then s.close .signal else s
def State.signalCandidate (s : State) (candidate : Value) : State :=
  s.signal refuses (lit "candidate") [(lit "candidate",candidate)]
/-- The local description goes out, and behind it the candidates that waited for it. -/
def State.description (s : State) (type : Kind) : State :=
  match s.localDescription with
  | none => s.close .protocol
  | some sdp =>
    if maxSdpBytes < (utf8Bytes sdp).length then s.close .protocol
    else
      let s := s.signal refuses type.text [(lit "sdp",.string sdp)]
      let candidates := s.localCandidates
      candidates.foldl (State.signalCandidate refuses) { s with descriptionSent := true,localCandidates := [] }
/-- A candidate of the native connection, none where it has no more. -/
def State.ice (s : State) : Option Value → State
  | none => s
  | some value =>
    if s.closed then s
    else
      let s := { s with sentCandidates := s.sentCandidates + 1 }
      if maxCandidates < s.sentCandidates then s.close .protocol
      else if maxCandidateBytes < (utf8Bytes (write value)).length then s.close .protocol
      else if s.descriptionSent then s.signalCandidate refuses value
      else { s with localCandidates := s.localCandidates ++ [value] }

/-! ### The channel -/

/-- The link is there once the channel is open and the remote description is set. -/
def State.opened (s : State) : State :=
  if s.closed ∨ s.link ∨ s.channel.any (·.opened) = false ∨ s.remoteDescription = none then s
  else { s with link := true,timer := false,ready := s.ready.settle .link }
def State.takeChannel (s : State) (channel : Channel) : State :=
  if s.closed ∨ s.channel.isSome ∨ realtime channel config.maxPacketLifeTimeMs = false then
    ({ s with log := s.log ++ [.refuseChannel] } : State).close .protocol
  else ({ s with channel := some channel } : State).opened

/-! ### Operations -/

def State.serial (s : State) (operation : Operation) : State := { s with operations := s.operations ++ [operation] }
/-- A native call is made, and the operation under way waits for it. -/
def State.calling (s : State) (action : Action) (call : Call) : State :=
  { s with log := s.log ++ [action],running := some ⟨call,none⟩ }
/-- The candidates that came before the remote description are added one by one. Then an
    offer is answered, and an answer ends the operation. -/
def State.adding (s : State) (type : Kind) : List Value → State
  | candidate :: left => s.calling (.addIceCandidate candidate) (.pending type left)
  | [] =>
    match type with
    | .offer => s.calling .createAnswer .createAnswer
    | .answer => ({ s with running := none } : State).opened
/-- The first part of an operation, up to its first wait. -/
def State.begin (s : State) : Operation → State
  | .offer => s.calling .createOffer .createOffer
  | .description type sdp => s.calling (.setRemoteDescription type sdp) (.remote type sdp)
  | .candidate candidate => s.calling (.addIceCandidate candidate) .candidate
/-- The part of an operation behind a call that succeeded. -/
def State.proceed (s : State) (call : Call) : State :=
  let idle : State := { s with running := none }
  if s.closed then idle
  else
    match call with
    | .createOffer => s.calling .setLocalDescription .localOffer
    | .localOffer => idle.description refuses .offer
    | .remote type _ => ({ s with pendingCandidates := [] } : State).adding type s.pendingCandidates
    | .pending type left => s.adding type left
    | .createAnswer => s.calling .setLocalDescription .localAnswer
    | .localAnswer => (idle.description refuses .answer).opened
    | .candidate => idle
/-- The operation under way goes on once its call is settled, and closes the peer where
    the call failed. -/
def State.resume (s : State) : State :=
  match s.running with
  | some ⟨call,some true⟩ => s.proceed refuses call
  | some ⟨_,some false⟩ => ({ s with running := none } : State).close .signal
  | _ => s
/-- The turn of the next operation, which a closed peer leaves out. -/
def State.next (s : State) : State :=
  match s.running,s.operations with
  | none,operation :: operations =>
    let s := { s with operations }
    if s.closed then s else s.begin operation
  | _,_ => s
/-- A native call succeeds: a description is set with it, the local one to whatever the
    native connection makes of it. -/
def State.fulfilled (s : State) (sdp : Option Text) : State :=
  match s.running with
  | some ⟨call,none⟩ =>
    let s := { s with running := some ⟨call,some true⟩ }
    match call with
    | .remote type sdp => { s with remoteDescription := some (type,sdp) }
    | .localOffer | .localAnswer => { s with localDescription := sdp }
    | _ => s
  | _ => s
def State.failed (s : State) : State :=
  match s.running with
  | some ⟨call,none⟩ => { s with running := some ⟨call,some false⟩ }
  | _ => s

/-! ### Signals in -/

structure Signal where
  sender : Text
  type : Text
  transport : Text
  requestId : Text
  payload : Value

def isObject : Value → Bool
  | .array _ | .object _ => true
  | _ => false
/-- The candidate that a payload has, of any shape. -/
def candidateOf : Value → Option Value
  | .object fields => field fields (lit "candidate")
  | _ => none
def sdpOf : Value → Option Text
  | .object fields => fieldText fields (lit "sdp")
  | _ => none
def validCandidate : Value → Bool
  | .object fields =>
    (fieldText fields (lit "candidate")).isSome && (utf8Bytes (write (.object fields))).length ≤ maxCandidateBytes
  | _ => false

/-- A candidate that came is counted, checked and kept. -/
def State.candidate (s : State) (payload : Value) (keep : State → Value → State) : State :=
  let s := { s with candidates := s.candidates + 1 }
  if maxCandidates < s.candidates then s.close .protocol
  else
    match (candidateOf payload).filter validCandidate with
    | none => s.close .protocol
    | some candidate => keep s candidate
/-- Whether a description comes to the side that does not take it, or comes again. -/
def State.seen (s : State) : Kind → Bool
  | .offer => config.initiator || s.offerSeen
  | .answer => !config.initiator || s.answerSeen
/-- A candidate waits for the remote description, or is queued behind it. -/
def State.keep (s : State) (candidate : Value) : State :=
  if s.remoteDescription = none then { s with pendingCandidates := s.pendingCandidates ++ [candidate] }
  else s.serial (.candidate candidate)
def State.accept (s : State) (type : Kind) (sdp : Text) : State :=
  match type with
  | .offer => ({ s with offerSeen := true } : State).serial (.description type sdp)
  | .answer => ({ s with answerSeen := true } : State).serial (.description type sdp)
/-- A signal of the peer, once there is a request id. -/
def State.hear (s : State) (signal : Signal) : State :=
  if some signal.requestId ≠ s.requestId ∨ isObject signal.payload = false then s
  else if signal.type = lit "candidate" then s.candidate signal.payload State.keep
  else
    match kindOf signal.type with
    | none => s
    | some type =>
      if s.seen config type then s
      else
        match sdpOf signal.payload with
        | none => s.close .protocol
        | some sdp => if maxSdpBytes < (utf8Bytes sdp).length then s.close .protocol else s.accept type sdp
/-- A candidate that comes before the offer waits for the offer to choose its id. -/
def State.keepEarly (id : Text) (s : State) (candidate : Value) : State :=
  { s with earlyCandidates := s.earlyCandidates ++ [(id,candidate)] }
/-- The offer chooses the request id, and with it the early candidates that are taken. -/
def State.choose (s : State) (id : Text) : State :=
  { s with
    requestId := some id
    pendingCandidates := s.pendingCandidates ++ (s.earlyCandidates.filter (·.1 = id)).map (·.2)
    earlyCandidates := [] }
def State.receive (s : State) (signal : Signal) : State :=
  if s.closed ∨ signal.sender ≠ config.peerPubkey ∨ signal.transport ≠ realtimeTransport ∨
      validRequestId signal.requestId = false then s
  else if s.requestId = none then
    if signal.type = lit "candidate" then s.candidate signal.payload (State.keepEarly signal.requestId)
    else if config.initiator ∨ signal.type ≠ lit "offer" then s
    else (s.choose signal.requestId).hear config signal
  else s.hear config signal

/-! ### Runs -/

/-- A peer starts: the session may refuse to be listened to, and the native connection of
    an initiator to create a channel. -/
def State.start (s : State) (listens : Bool) (created : Option Channel) : State :=
  if s.started ∨ s.closed then s
  else
    let s := { s with started := true,timer := true }
    if listens = false then s.close .signal
    else if config.initiator = false then s
    else
      match created with
      | none => s.close .channel
      | some channel => (s.takeChannel config channel).serial .offer

inductive Event where
  | start (listens : Bool) (created : Option Channel)
  | signal (signal : Signal)
  | ice (candidate : Option Value)
  | datachannel (channel : Channel)
  /-- The state of the native channel changes. -/
  | readyState (opened : Bool)
  | channelOpen
  | channelEnded
  /-- The state of the native connection changes, to an end or not. -/
  | connection (ended : Bool)
  | fulfilled (sdp : Option Text)
  | failed
  | resume
  | next
  | abort
  | timeout
  /-- The link closes itself. -/
  | linkClose (reason : Reason)
  | close (reason : Reason)

/-- One event. What the peer listens to reaches it from its start until it closes. -/
def State.step (s : State) : Event → State
  | .start listens created => s.start config listens created
  | .signal signal => if s.started then s.receive config signal else s
  | .ice candidate => if s.started then s.ice refuses candidate else s
  | .datachannel channel => if s.started ∧ s.closed = false then s.takeChannel config channel else s
  | .readyState opened => { s with channel := s.channel.map (fun channel => { channel with opened }) }
  | .channelOpen => s.opened
  | .channelEnded => if s.channel.isSome then s.close .channel else s
  | .connection ended => if s.started ∧ ended = true then s.close .native else s
  | .fulfilled sdp => s.fulfilled sdp
  | .failed => s.failed
  | .resume => s.resume refuses
  | .next => s.next
  | .abort => s.close .abort
  | .timeout => if s.timer then s.close .timeout else s
  | .linkClose reason => if s.link then s.close reason else s
  | .close reason => s.close reason

def State.new : State :=
  let s : State := {
    requestId := if config.initiator then some (config.requestId.getD config.drawn) else config.requestId
    closed := false,closeReason := none,started := false,timer := false,offerSeen := false,answerSeen := false
    descriptionSent := false,earlyCandidates := [],pendingCandidates := [],localCandidates := [],candidates := 0
    sentCandidates := 0,operations := [],running := none,remoteDescription := none,localDescription := none
    channel := none,link := false,ready := .waiting,calls := 0,log := [] }
  if config.aborted then s.close .abort else s
def run (events : List Event) : State := events.foldl (State.step config refuses) (State.new config)
end
end RelaySwarm.RealtimePeer
