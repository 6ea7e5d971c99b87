import RelaySwarm.Tally
import RelaySwarm.TransferFrame

/-!
One load from several holders, as the page runs it over the core's transfer. Every call
of the transfer is made through `submit`: on the page it is answered at once, in a worker
its reply comes later, in the order of the calls. The commands of a reply are run one
after another, and a call made by one of them is answered before the next. A source is
credited with the bytes that its own answer newly verified. The clock, the authority of
the load and what becomes of its requests are read from outside.
-/
namespace RelaySwarm.MultiHolder
open Transfers Pieces Planning
universe u

def progressReportMs : ℚ := 50

/-- A holder that is asked: its number, its connection and what is known of its speed. -/
structure Holder (κ : Type u) where
  id : Nat
  connection : κ
  firstByteMs : Option ℚ
  rate : Option ℚ

/-- What the load is about, and how it runs. -/
structure Plan (κ : Type u) where
  worker : Bool
  peerOnly : Bool
  bufferedMixed : Bool
  limit : ℚ
  originReserveMs : ℚ
  maxHolders : Nat
  size : Nat
  sha256 : String
  pieces : List String
  holders : List (Holder κ)
  originRate : Option ℚ
  sharedFirstByteMs : Option ℚ
  sharedRate : Option ℚ

/-- A ranged request that a holder has not answered. -/
structure Request (κ : Type u) where
  controller : Nat
  peer : Nat
  connection : κ
  range : PieceRange
  reportedAt : Option ℚ

/-- What takes the reply to a call: the start of the load, the answer of a holder or of
    origin with its bytes, or nothing but its commands. -/
inductive Taking (κ : Type u) where
  | started
  | plain
  | peer (request : Request κ) (completedAt : ℚ) (bytes : Nat)
  | origin (bytes : Nat)
structure Call (κ : Type u) where
  event : Transfers.Event
  taking : Taking κ
structure Reply (κ : Type u) where
  taking : Taking κ
  commands : List Command
  state : TransferFrame.State
/-- The commands of a reply that are still to be run, and when to tick after them. -/
structure Frame where
  commands : List Command
  next : Option Nat

/-- The object as the page is given it: what the holders brought, by connection. -/
structure Delivery (κ : Type u) where
  object : List UInt8
  peerBytes : Nat
  contributions : List (κ × Nat)

structure State (κ : Type u) where
  transfer : Transfer
  /-- Calls the worker has not run, and replies the page has not taken, oldest first. -/
  calls : List (Call κ)
  replies : List (Reply κ)
  /-- The replies being applied, innermost first. -/
  frames : List Frame
  asked : List (Request κ)
  /-- The controller of the latest request to each holder. -/
  requests : IndexMap Nat Nat
  controllers : Nat
  aborted : List Nat
  /-- Ranges asked of origin that it has not answered. -/
  originRequests : List PieceRange
  tickTimer : Option Nat
  finished : Bool
  result : Option (Delivery κ)
  verified : Nat
  originShare : Nat
  contributions : IndexMap κ Nat
  banned : List Nat
  peerBytes : Nat
  originBytes : Nat
  unusedBytes : Int
  /-- The replies taken, and the payload bytes that came on each connection. -/
  handled : List (Reply κ)
  received : IndexMap κ Nat

/-- What an event reads from outside: the clock when it comes and when a reply is taken,
    and at these times whether the load and its peer arm are still wanted. -/
structure Reading where
  now : ℚ
  repliedAt : ℚ
  currentValid : Bool
  replyValid : Bool
  peerCurrentValid : Bool
  /-- The holder that answers may be used. -/
  eligible : Bool
  /-- When its verified answer is taken it still is, and is leased, and the load stands. -/
  owned : Bool
  /-- The commitment is past its time. -/
  expired : Bool
  /-- The call does not reach the transfer. -/
  refused : Bool

variable {κ : Type u} [DecidableEq κ]

/-! ### The plan -/

omit [DecidableEq κ] in
def Plan.deadline (plan : Plan κ) : Nat := ⌊plan.limit⌋.toNat
omit [DecidableEq κ] in
def Plan.hardDeadline (plan : Plan κ) : ℚ := if plan.peerOnly then plan.limit else plan.limit + plan.originReserveMs
omit [DecidableEq κ] in
/-- `rs_xfer_new` of the load's configuration. -/
def Plan.create (plan : Plan κ) : Option Transfer :=
  let config := ⟨plan.maxHolders,0⟩
  if plan.peerOnly then
    if plan.bufferedMixed then none
    else Transfer.newPeerOnly config plan.size plan.sha256 plan.pieces plan.deadline
  else if plan.bufferedMixed then
    (Transfer.new config plan.size plan.sha256 plan.pieces plan.deadline).bind Transfer.withExclusiveOrigin
  else Transfer.new config plan.size plan.sha256 plan.pieces plan.deadline
omit [DecidableEq κ] in
/-- `ids.get(peer)`. -/
def Plan.holder (plan : Plan κ) (peer : Nat) : Option (Holder κ) := plan.holders.find? (·.id = peer)
omit [DecidableEq κ] in
/-- The first call; a peer-only transfer gets no estimate of origin. -/
def Plan.startCall (plan : Plan κ) (moment : Nat) : Transfers.Event :=
  let peers := plan.holders.map (fun holder => ⟨.peer holder.id,holder.firstByteMs,holder.rate⟩)
  let probePeers := (plan.holders.filter (·.rate.isNone)).map (·.id)
  if plan.peerOnly then .startPeerOnly moment peers plan.sharedFirstByteMs plan.sharedRate probePeers
  else .start moment peers ⟨.origin,some 0,plan.originRate⟩ plan.sharedFirstByteMs plan.sharedRate probePeers
def Reading.at (reading : Reading) : Nat := ⌊reading.now⌋.toNat

/-! ### Taking replies -/

namespace State
variable (plan : Plan κ)

def new (transfer : Transfer) : State κ :=
  ⟨transfer,[],[],[],[],.empty,0,[],[],none,false,none,0,0,.empty,[],0,0,0,[],.empty⟩

omit [DecidableEq κ] in
/-- The load is over: nothing is applied any more. -/
def finish (s : State κ) (result : Option (Delivery κ)) : State κ :=
  if s.finished then s else { s with finished := true, result, frames := [], tickTimer := none }
omit [DecidableEq κ] in
/-- The commands are run before anything else happens. -/
def apply (s : State κ) (commands : List Command) (next : Option Nat) : State κ :=
  if s.finished then s else { s with frames := ⟨commands,next⟩ :: s.frames }
/-- The bytes newly verified by an answer of so many, and the rest as unused. -/
def fresh (s : State κ) (verified : Nat) : Nat := verified - s.verified
omit [DecidableEq κ] in
def credit (s : State κ) (verified received : Nat) : State κ :=
  { s with verified := max s.verified verified, unusedBytes := s.unusedBytes + ((received : Int) - s.fresh verified) }

/-- A command of a start that the buffered mixed mode may run. -/
def startable (command : Command) : Prop :=
  match command with
  | .request peer range => (plan.holder peer).isSome ∧ range.start < range.stop ∧ range.stop ≤ plan.pieces.length
  | .fetchOrigin range => range.start < range.stop ∧ range.stop ≤ plan.pieces.length
  | _ => False
instance (command : Command) : Decidable (startable plan command) := by
  unfold startable
  split <;> infer_instance
def asksPeer : Command → Bool
  | .request .. => true
  | _ => false
def asksOrigin : Command → Bool
  | .fetchOrigin .. => true
  | _ => false
def bans : Command → Option Nat
  | .ban peer => some peer
  | _ => none
/-- A ban or the end of the transfer. -/
def rejects : Command → Bool
  | .ban _ => true
  | .fail => true
  | _ => false

/-- The first reply. Under a buffered mixed load both lanes must be there, and origin
    is asked first. -/
def takeStart (s : State κ) (reading : Reading) (reply : Reply κ) : State κ :=
  if plan.bufferedMixed then
    if reading.currentValid = false ∨ ∃ command ∈ reply.commands, ¬ startable plan command then s.finish none
    else if ¬ (reply.commands.any asksOrigin ∧ reply.commands.any asksPeer) then s.finish none
    else
      s.apply (reply.commands.filter asksOrigin ++ reply.commands.filter (fun command => !asksOrigin command))
        reply.state.next
  else s.apply reply.commands reply.state.next
/-- The reply to the answer of a holder. -/
def takePeer (s : State κ) (reading : Reading) (reply : Reply κ) (request : Request κ) (completedAt : ℚ) (bytes : Nat) :
    State κ :=
  if plan.bufferedMixed ∧ ((plan.deadline : ℚ) ≤ completedAt ∨ request.controller ∈ s.aborted ∨
    reading.owned = false) then
    s.finish none
  else if plan.bufferedMixed ∧ reply.commands.any rejects then
    { s with
      unusedBytes := s.unusedBytes + bytes
      banned := s.banned ++ reply.commands.filterMap bans }.finish none
  else
    let fresh := s.fresh reply.state.verified
    let credited := s.credit reply.state.verified bytes
    { credited with
      peerBytes := s.peerBytes + fresh
      contributions := if 0 < fresh then s.contributions.add request.connection fresh else s.contributions }.apply
        reply.commands reply.state.next
omit [DecidableEq κ] in
/-- The reply to an answer of origin. -/
def takeOrigin (s : State κ) (reply : Reply κ) (bytes : Nat) : State κ :=
  let fresh := s.fresh reply.state.verified
  { s.credit reply.state.verified bytes with
    originBytes := s.originBytes + fresh
    originShare := s.originShare + fresh }.apply reply.commands reply.state.next
def accept (s : State κ) (reading : Reading) (reply : Reply κ) : State κ :=
  match reply.taking with
  | .started => s.takeStart plan reading reply
  | .plain => s.apply reply.commands reply.state.next
  | .peer request completedAt bytes => s.takePeer plan reading reply request completedAt bytes
  | .origin bytes => s.takeOrigin reply bytes
/-- A reply that comes too late, or to a load no more wanted, ends it. -/
def receive (s : State κ) (reading : Reading) (reply : Reply κ) : State κ :=
  if s.finished then s
  else if reading.replyValid = false then s.finish none
  else if (plan.worker ∨ plan.peerOnly ∨ plan.bufferedMixed) ∧ plan.hardDeadline ≤ reading.repliedAt then s.finish none
  else { s with handled := s.handled ++ [reply] }.accept plan reading reply

/-! ### Calls -/

section
variable (sha256 : List UInt8 → Digest)

omit [DecidableEq κ] in
/-- The transfer answers a call, its commands drained. -/
def serve (s : State κ) (call : Call κ) : State κ × Reply κ :=
  let t := (Transfers.handle sha256 s.transfer call.event).drainCommands
  ({ s with transfer := t.2 },⟨call.taking,t.1,TransferFrame.stateOf t.2⟩)
/-- A call of the transfer. One that is refused ends the load at once on the page; the
    worker's refusal comes as a cut-off. -/
def submit (s : State κ) (reading : Reading) (event : Transfers.Event) (taking : Taking κ) : State κ :=
  if s.finished then s
  else if reading.refused then if plan.worker then s else s.finish none
  else if plan.worker then { s with calls := s.calls ++ [⟨event,taking⟩] }
  else (s.serve sha256 ⟨event,taking⟩).1.receive plan reading (s.serve sha256 ⟨event,taking⟩).2
def tick (s : State κ) (reading : Reading) : State κ := s.submit plan sha256 reading (.tick reading.at) .plain
omit [DecidableEq κ] in
/-- An exception while commands are run: on the page it ends the load, in a promise it
    leaves the rest of them undone. -/
def threw (s : State κ) : State κ := if plan.worker then { s with frames := [] } else s.finish none

def run (s : State κ) (reading : Reading) : Command → State κ
  | .request peer range =>
    if plan.bufferedMixed ∧ reading.peerCurrentValid = false then s.tick plan sha256 reading
    else
      match plan.holder peer with
      | none => s.threw plan
      | some holder =>
        { s with
          requests := s.requests.insert peer s.controllers
          asked := s.asked ++ [⟨s.controllers,peer,holder.connection,range,none⟩]
          controllers := s.controllers + 1 }
  | .fetchOrigin range =>
    if plan.peerOnly then s.finish none else { s with originRequests := s.originRequests ++ [range] }
  | .cancel peer => { s with aborted := s.aborted ++ (s.requests.get? peer).toList }
  | .abandon peer => { s with aborted := s.aborted ++ (s.requests.get? peer).toList }
  | .ban peer => if (plan.holder peer).isSome then { s with banned := s.banned ++ [peer] } else s.threw plan
  | .deliver object =>
    s.finish (if reading.expired then none
      else some ⟨object,plan.size - s.originShare,s.contributions.entries⟩)
  | .fail => s.finish none
/-- The next command of the innermost reply is run; after the last the tick is set. -/
def next (s : State κ) (reading : Reading) : State κ :=
  match s.frames with
  | [] => s
  | ⟨[],next⟩ :: rest => { s with frames := rest, tickTimer := next }
  | ⟨command :: commands,next⟩ :: rest =>
    { s with frames := ⟨commands,next⟩ :: rest }.run plan sha256 reading command

/-! ### Events -/

/-- A request of a holder ends, with its payload or without. -/
def answered (s : State κ) (reading : Reading) (request : Request κ) (bytes : Option (List UInt8)) : State κ :=
  let requests := if s.requests.get? request.peer = some request.controller then s.requests.erase request.peer
    else s.requests
  let length := (bytes.map List.length).getD 0
  let s := { s with requests, received := s.received.add request.connection length }
  if s.finished then s
  else if plan.bufferedMixed ∧ (reading.eligible = false ∨ reading.currentValid = false) then s.finish none
  else
    match bytes with
    | some bytes =>
      if plan.bufferedMixed ∧ ((plan.deadline : ℚ) ≤ reading.now ∨ reading.peerCurrentValid = false) then
        { s with unusedBytes := s.unusedBytes + bytes.length }.tick plan sha256 reading
      else
        s.submit plan sha256 reading (.delivered reading.at (.peer request.peer) request.range bytes)
          (.peer request reading.now bytes.length)
    | none => s.submit plan sha256 reading (.failed reading.at (.peer request.peer)) .plain
/-- A range asked of origin ends. -/
def fetched (s : State κ) (reading : Reading) (range : PieceRange) (bytes : Option (List UInt8)) : State κ :=
  match bytes with
  | none => s.submit plan sha256 reading (.failed reading.at .origin) .plain
  | some bytes =>
    s.submit plan sha256 reading (.delivered reading.at .origin range bytes) (.origin bytes.length)
/-- Bytes of a request came; they are reported every so often. -/
def progress (s : State κ) (reading : Reading) (index : Nat) (request : Request κ) (received : Nat) : State κ :=
  if s.finished ∨ s.requests.get? request.peer ≠ some request.controller ∨
      (∃ reported ∈ request.reportedAt, reading.now - reported < progressReportMs) then s
  else if plan.bufferedMixed ∧ reading.peerCurrentValid = false then s.tick plan sha256 reading
  else
    { s with asked := s.asked.set index { request with reportedAt := some reading.now } }.submit plan sha256 reading
      (.progress reading.at (.peer request.peer) received) .plain
end
end State

inductive Event where
  | next (reading : Reading)
  | answered (reading : Reading) (index : Nat) (bytes : Option (List UInt8))
  | rejected (reading : Reading) (index : Nat)
  | fetched (reading : Reading) (index : Nat) (bytes : Option (List UInt8))
  | progress (reading : Reading) (index received : Nat)
  | timer (reading : Reading)
  | deadline (reading : Reading)
  /-- The worker runs the oldest call. -/
  | work
  /-- The page takes the oldest reply. -/
  | reply (reading : Reading)
  /-- An abort, the recovery backstop, an origin range without payload, a refused call or
      a lost worker. -/
  | cutOff

namespace State
variable (plan : Plan κ) (sha256 : List UInt8 → Digest)

/-- An event that comes while no command is being run. -/
def outer (s : State κ) : Event → State κ
  | .next _ => s
  | .answered reading index bytes =>
    match s.asked[index]? with
    | none => s
    | some request => { s with asked := s.asked.eraseIdx index }.answered plan sha256 reading request bytes
  | .rejected reading index =>
    match s.asked[index]? with
    | none => s
    | some request =>
      { s with asked := s.asked.eraseIdx index }.submit plan sha256 reading
        (.failed reading.at (.peer request.peer)) .plain
  | .fetched reading index bytes =>
    match s.originRequests[index]? with
    | none => s
    | some range => { s with originRequests := s.originRequests.eraseIdx index }.fetched plan sha256 reading range bytes
  | .progress reading index received =>
    match s.asked[index]? with
    | none => s
    | some request => s.progress plan sha256 reading index request received
  | .timer reading =>
    match s.tickTimer with
    | none => s
    | some _ => { s with tickTimer := none }.tick plan sha256 reading
  | .deadline reading => s.tick plan sha256 reading
  | .work =>
    match s.calls with
    | [] => s
    | call :: calls =>
      let served := { s with calls }.serve sha256 call
      { served.1 with replies := served.1.replies ++ [served.2] }
  | .reply reading =>
    match s.replies with
    | [] => s
    | reply :: replies => { s with replies }.receive plan reading reply
  | .cutOff => s.finish none
/-- Commands are run to their end before another event is handled; only the worker goes
    on beside them, and a request may cut the load off as it is made. -/
def step (s : State κ) (event : Event) : State κ :=
  match event with
  | .next reading => s.next plan sha256 reading
  | .work => s.outer plan sha256 .work
  | .cutOff => s.outer plan sha256 .cutOff
  | event => if s.frames = [] then s.outer plan sha256 event else s
/-- The load as its start is submitted; a start that is refused ends it. -/
def opened (transfer : Transfer) (reading : Reading) : State κ :=
  if reading.refused then (State.new transfer).finish none
  else (State.new transfer).submit plan sha256 reading (plan.startCall reading.at) .started
/-- The load after the events. -/
def after (transfer : Transfer) (reading : Reading) (events : List Event) : State κ :=
  events.foldl (fun s event => s.step plan sha256 event) (opened plan sha256 transfer reading)

end State
end RelaySwarm.MultiHolder
