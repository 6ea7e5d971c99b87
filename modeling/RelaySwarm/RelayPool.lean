import RelaySwarm.IndexMap
import Mathlib.Algebra.Order.Ring.Rat

/-!
A pool of relay sockets. Subscriptions live at the pool, which tells every open socket of
them; an event that comes back is handed on once, when it is what was subscribed to. A pool
that reconnects dials a relay again when its socket is refused or dropped.
-/
namespace RelaySwarm.RelayPool
variable {F E : Type}

/-- How filters and events are read: whether they match, whether an event proves its
    signature, and its id when that is a string. -/
structure Terms (F E : Type) where
  matchFilter : F → E → Bool
  verifyEvent : E → Bool
  id : E → Option String
inductive Frame (F E : Type) where
  | req (id : String) (filter : F)
  | close (id : String)
  | event (e : E)
/-- What comes from a relay: whether it took an event, an event, or anything else. -/
inductive Message (E : Type) where
  | ok (accepted : Bool)
  | event (id : String) (e : E)
  | other
/-- A socket that was refused by one of the first attempts is owed a dial when all of them
    are done with. -/
inductive Phase where
  | pending
  | opened
  | owed
  | refused
  | dropped
deriving DecidableEq
structure Socket (F E : Type) where
  url : String
  phase : Phase
  /-- The attempt it was dialled again by, after the first. -/
  retry : Option Nat
  wire : List (Frame F E)
structure Retry where
  url : String
  attempt : Nat
  delay : ℚ
structure Batch where
  members : List Nat
  settled : Bool
structure Settings where
  urls : List String
  distinct : urls.Nodup
  reconnect : Bool
  reconnectMaxMs : ℚ
  readyOnFirstRelay : Bool
structure Pool (F E : Type) where
  sockets : List (Socket F E)
  batches : List Batch
  retryTimers : List Retry
  subscriptions : IndexMap String F
  seen : List String
  connected : Bool
  closed : Bool
  connecting : Bool
  published : Nat
  rejected : Nat
  /-- What was handed on, by the subscription it came under. -/
  delivered : List (String × E)
abbrev Random := { r : ℚ // 0 ≤ r ∧ r < 1 }
/-- What numbers are drawn goes with the event. -/
inductive Event (F E : Type) where
  | connect
  /-- A socket opens, and handlers publish to it. -/
  | opens (i : Nat) (replays : List E)
  /-- It fails to connect, in time or at all, or closes. -/
  | fails (i : Nat) (random : Random)
  | closes (i : Nat) (random : Random)
  /-- All first attempts of a connection are done with. -/
  | settles (b : Nat) (random : Nat → Random)
  | redials (k : Nat)
  | message (message : Message E)
  | subscribe (id : String) (filter : F)
  | unsubscribe (id : String)
  | publish (e : E)
  | close

def Socket.isOpen (socket : Socket F E) : Bool := socket.phase = .opened
/-- What a relay serves to a socket that was sent this. -/
def served (wire : List (Frame F E)) : IndexMap String F :=
  wire.foldl (fun kept frame =>
    match frame with
    | .req id filter => kept.insert id filter
    | .close id => kept.erase id
    | .event _ => kept) .empty

namespace Pool

def new : Pool F E := ⟨[],[],[],.empty,[],false,false,false,0,0,[]⟩
def anyOpen (p : Pool F E) : Bool := p.sockets.any Socket.isOpen
/-- The lines to a relay: sockets to it that are, or may come to be, open, and dials to come. -/
def lines (p : Pool F E) (url : String) : Nat :=
  p.sockets.countP (fun socket => socket.url =
    url && (socket.phase = .pending || socket.phase = .opened || socket.phase = .owed)) +
    p.retryTimers.countP (·.url = url)
def connectOne (p : Pool F E) (url : String) (retry : Option Nat) : Pool F E :=
  { p with sockets := p.sockets ++ [⟨url,.pending,retry,[]⟩] }
/-- Every open socket is sent a frame. -/
def broadcast (p : Pool F E) (frame : Frame F E) : Pool F E :=
  { p with
    sockets :=
      p.sockets.map (fun socket => if socket.isOpen then { socket with wire := socket.wire ++ [frame] } else socket) }
def set (p : Pool F E) (i : Nat) (socket : Socket F E) : Pool F E := { p with sockets := p.sockets.set i socket }

variable (settings : Settings)

/-- The delay doubles with the attempts, up to a bound, and up to half of it is taken off. -/
def delay (attempt : Nat) (random : Random) : ℚ :=
  min settings.reconnectMaxMs (1000 * 2 ^ min attempt 5) * (1/2 + random.1 * (1/2))
def redial (p : Pool F E) (url : String) (attempt : Nat) (random : Random) : Pool F E :=
  if p.closed then p else { p with retryTimers := p.retryTimers ++ [⟨url,attempt,delay settings attempt random⟩] }
/-- A socket that is pending is given up. A first attempt waits for the others; another is
    dialled again, unless its relay is connected to meanwhile. -/
def refuse (p : Pool F E) (i : Nat) (random : Random) : Pool F E :=
  match p.sockets[i]? with
  | none => p
  | some socket =>
    if socket.phase = .pending then
      match socket.retry with
      | none => p.set i { socket with phase := .owed }
      | some attempt =>
        let p := p.set i { socket with phase := .refused }
        if p.connected = true ∧ p.sockets.any (fun other => other.isOpen && other.url == socket.url) = false then
          p.redial settings socket.url (attempt + 1) random
        else p
    else p
/-- What a first attempt that was refused is owed. -/
def owe (p : Pool F E) (i : Nat) (random : Random) : Pool F E :=
  match p.sockets[i]? with
  | none => p
  | some socket =>
    if socket.phase = .owed then
      let p := p.set i { socket with phase := .refused }
      if settings.reconnect then p.redial settings socket.url 1 random else p
    else p
def connect (p : Pool F E) : Pool F E :=
  if p.closed = true ∨ (p.connected = true ∧ p.anyOpen = true) ∨ p.connecting = true then p
  else
    { settings.urls.foldl (fun p url => p.connectOne url none) p with
      connected := true
      connecting := true
      batches := p.batches ++ [⟨List.range' p.sockets.length settings.urls.length,false⟩] }
def opens (p : Pool F E) (i : Nat) (replays : List E) : Pool F E :=
  match p.sockets[i]? with
  | none => p
  | some socket =>
    if socket.phase = .pending ∧ p.closed = false then
      { p.set i { socket with
          phase := .opened
          wire := p.subscriptions.entries.map (fun entry => .req entry.1 entry.2) ++ replays.map .event } with
        connecting := p.connecting && !(settings.reconnect || settings.readyOnFirstRelay)
        published := p.published + replays.length }
    else p
def closes (p : Pool F E) (i : Nat) (random : Random) : Pool F E :=
  match p.sockets[i]? with
  | none => p
  | some socket =>
    if socket.isOpen then
      let p := p.set i { socket with phase := .dropped }
      if settings.reconnect = true ∧ p.connected = true then p.redial settings socket.url 1 random else p
    else p.refuse settings i random
/-- The first attempts are all settled; those that were refused are dialled again, in a pool
    that reconnects. -/
def settles (p : Pool F E) (b : Nat) (random : Nat → Random) : Pool F E :=
  match p.batches[b]? with
  | none => p
  | some batch =>
    if batch.settled = true ∨ batch.members.any (fun i => (p.sockets[i]?).any (·.phase = .pending)) = true then p
    else
      let p := batch.members.foldl (fun p i => p.owe settings i (random i)) p
      { p with
        batches := p.batches.set b { batch with settled := true }
        connecting := p.connecting && settings.reconnect }
def redials (p : Pool F E) (k : Nat) : Pool F E :=
  match p.retryTimers[k]? with
  | none => p
  | some retry =>
    let p := { p with retryTimers := p.retryTimers.eraseIdx k }
    if p.connected then p.connectOne retry.url (some retry.attempt) else p

variable (terms : Terms F E)

/-- A frame is heard when it is an event that was subscribed to, proved, and not seen lately. -/
def onMessage (p : Pool F E) (message : Message E) : Pool F E :=
  if p.closed then p
  else
    match message with
    | .other => p
    | .ok accepted => if accepted then p else { p with rejected := p.rejected + 1 }
    | .event id e =>
      match p.subscriptions.get? id,terms.id e with
      | some filter,some name =>
        if terms.matchFilter filter e = true ∧ name ∉ p.seen ∧ terms.verifyEvent e = true then
          let seen := p.seen ++ [name]
          { p with
            seen := if 10000 < seen.length then seen.tail else seen
            delivered := p.delivered ++ [(id,e)] }
        else p
      | _,_ => p
def subscribe (p : Pool F E) (id : String) (filter : F) : Pool F E :=
  if p.connected = false ∨ p.anyOpen = false ∨ 32 ≤ p.subscriptions.length then p
  else ({ p with subscriptions := p.subscriptions.insert id filter } : Pool F E).broadcast (.req id filter)
def unsubscribe (p : Pool F E) (id : String) : Pool F E :=
  if p.subscriptions.contains id
    then ({ p with subscriptions := p.subscriptions.erase id } : Pool F E).broadcast (.close id) else p
def publish (p : Pool F E) (e : E) : Pool F E :=
  if p.connected = false ∨ p.anyOpen = false then p
  else ({ p with published := p.published + 1 } : Pool F E).broadcast (.event e)
/-- Whatever is under way ends with the pool. -/
def close (p : Pool F E) : Pool F E :=
  { p with
    sockets := p.sockets.map (fun socket => { socket with
      phase := match socket.phase with
        | .pending => .refused
        | .opened => .dropped
        | phase => phase })
    retryTimers := []
    subscriptions := .empty
    seen := []
    connected := false
    closed := true
    connecting := false }

def step (p : Pool F E) : Event F E → Pool F E
  | .connect => p.connect settings
  | .opens i replays => p.opens settings i replays
  | .fails i random => p.refuse settings i random
  | .closes i random => p.closes settings i random
  | .settles b random => p.settles settings b random
  | .redials k => p.redials k
  | .message message => p.onMessage terms message
  | .subscribe id filter => p.subscribe id filter
  | .unsubscribe id => p.unsubscribe id
  | .publish e => p.publish e
  | .close => p.close
def run (events : List (Event F E)) (p : Pool F E) : Pool F E :=
  events.foldl (fun p event => p.step settings terms event) p

end Pool
end RelaySwarm.RelayPool
