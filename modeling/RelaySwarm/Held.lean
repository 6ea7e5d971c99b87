import RelaySwarm.LinkHave

/-!
The objects a swarm holds for others, and what its links are told of them. Every link
has an ordered channel to the link of a remote, which is told each key that is taken
in and each that is dropped.
-/
namespace RelaySwarm.Held
open Script Links

structure Options where
  maxHeldSegments : Nat
  maxHeldBytes : Nat
  maxSegmentBytes : Nat
/-- The values the constructor takes: safe integers from 1 on. -/
def Options.accepted (options : Options) : Bool :=
  [options.maxHeldSegments,options.maxHeldBytes,options.maxSegmentBytes].all
    (fun value => isSafeInteger value && 1 ≤ value)

/-- An open link, the texts on their way to the remote, and the remote's link. -/
structure Connection where
  near : Link
  channel : List Message
  far : Link
/-- The texts among the events of a link. -/
def texts (events : List LinkEvent) : List Message :=
  events.filterMap (fun event => match event with
    | .sendText message => some message
    | _ => none)
/-- The link says something, and the channel takes it. -/
def Connection.say (c : Connection) (send : Link → Link) : Connection :=
  { c with near := (send c.near).drainEvents.2, channel := c.channel ++ texts (send c.near).drainEvents.1 }

structure Swarm where
  options : Options
  /-- The sizes of the held objects, by their keys. -/
  held : IndexMap String Nat
  heldBytes : Int
  links : List Connection
def Swarm.start (options : Options) : Swarm := ⟨options,.empty,0,[]⟩
def Swarm.tell (s : Swarm) (send : Link → Link) : Swarm := { s with links := s.links.map (·.say send) }

/-! ### Trimming -/

structure Trimmed where
  held : IndexMap String Nat
  bytes : Int
  evicted : List String
/-- Objects go, oldest first and pinned ones never, until the rest is within both limits. -/
def trim (maxHeldSegments : Nat) (limit : Int) (pinned : String → Bool) : Nat → IndexMap String Nat → Int → Trimmed
  | 0,held,bytes => ⟨held,bytes,[]⟩
  | left + 1,held,bytes =>
    if maxHeldSegments < held.length ∨ max 0 limit < bytes then
      match held.entries.find? (fun entry => !pinned entry.1) with
      | none => ⟨held,bytes,[]⟩
      | some (key,size) =>
        let rest := trim maxHeldSegments limit pinned left (held.erase key) (bytes - size)
        ⟨rest.held,rest.bytes,key :: rest.evicted⟩
    else ⟨held,bytes,[]⟩
/-- Every round drops one object, so there are at most as many as objects. -/
def Swarm.trimmed (s : Swarm) (limit : Int) (pinned : String → Bool) : Trimmed :=
  trim s.options.maxHeldSegments limit pinned s.held.length s.held s.heldBytes
def Swarm.keep (s : Swarm) (t : Trimmed) : Swarm := { s with held := t.held, heldBytes := t.bytes }
def Swarm.trimHeld (s : Swarm) (limit : Int) (pinned : String → Bool) : Swarm :=
  let t := s.trimmed limit pinned
  if t.evicted.isEmpty then s.keep t else (s.keep t).tell (·.sendHaveChange [] t.evicted)

/-! ### Taking in and dropping -/

/-- The swarm with one more object, before it is trimmed. -/
def Swarm.taken (s : Swarm) (key : String) (size : Nat) : Swarm :=
  { s with held := s.held.insert key size, heldBytes := s.heldBytes + size }
/-- An object is not taken in. -/
def Swarm.declines (s : Swarm) (key : String) (size : Nat) (allowed : Bool) : Bool :=
  !allowed || s.held.contains key || s.options.maxSegmentBytes < size
/-- An object is taken in, while serving is allowed; whether it is allowed is read again
    after the trim. -/
def Swarm.hold (s : Swarm) (key : String) (size reservation : Nat) (pinned : String → Bool)
    (allowed still : Bool) : Swarm :=
  if s.declines key size allowed then s
  else
    let t := (s.taken key size).trimmed (s.options.maxHeldBytes - reservation) pinned
    let kept := (s.taken key size).keep t
    if !still then kept
    else kept.tell (·.sendHaveChange (if t.held.contains key then [key] else []) t.evicted)
def Swarm.dropHeld (s : Swarm) (key : String) : Swarm :=
  match s.held.get? key with
  | none => s
  | some size => { s with held := s.held.erase key, heldBytes := s.heldBytes - size }.tell (·.sendHaveChange [] [key])
/-- Serving is over, and every link is told so. -/
def Swarm.withdrawContribution (s : Swarm) (rendition : Option String) : Swarm :=
  { s with held := .empty, heldBytes := 0 }.tell (fun link => (link.sendHave []).sendContribution false rendition)
/-- A link opened: it is told of the contribution, and of what is held while serving is allowed. -/
def Swarm.linkOpened (s : Swarm) (near far : LinkConfig) (now : Nat) (allowed : Bool)
    (renditions : List (Option String)) : Swarm :=
  let opened : Connection := ⟨Link.new near now,[],Link.new far now⟩
  let said := renditions.foldl (fun c rendition => c.say (·.sendContribution allowed rendition)) opened
  { s with links := s.links ++ [if allowed then said.say (·.sendHave s.held.keys) else said] }

/-! ### Runs -/

inductive Step where
  | hold (key : String) (size reservation : Nat) (pinned : String → Bool) (allowed still : Bool)
  | dropHeld (key : String)
  /-- Room is made for an object that is being loaded ahead. -/
  | reserve (size : Nat) (pinned : String → Bool)
  | withdraw (rendition : Option String)
  | linkOpened (near far : LinkConfig) (now : Nat) (allowed : Bool) (renditions : List (Option String))
  | linkClosed (index : Nat)
  /-- A link says anything but a HAVE message. -/
  | say (index : Nat) (message : Message)
  /-- The next text arrives at the remote. -/
  | deliver (index now : Nat)
  /-- Anything else happens to the remote's link. -/
  | remote (index : Nat) (input : Input)
  | stop

def Input.isText : Input → Bool
  | .text .. => true
  | _ => false
section
variable (parse : String → Option Json)

/-- The oldest text on its way is handled by the remote's link. -/
def Connection.deliver (c : Connection) (now : Nat) : Connection :=
  match c.channel with
  | [] => c
  | message :: rest => { c with channel := rest, far := c.far.handleText parse now message.text }
def Connection.remote (c : Connection) (input : Input) : Connection :=
  if Input.isText input then c else { c with far := c.far.step parse input }
def Swarm.step (s : Swarm) : Step → Swarm
  | .hold key size reservation pinned allowed still => s.hold key size reservation pinned allowed still
  | .dropHeld key => s.dropHeld key
  | .reserve size pinned => s.trimHeld (s.options.maxHeldBytes - size) pinned
  | .withdraw rendition => s.withdrawContribution rendition
  | .linkOpened near far now allowed renditions => s.linkOpened near far now allowed renditions
  | .linkClosed index => { s with links := s.links.eraseIdx index }
  | .say index message =>
    if message.have.isSome then s else { s with links := s.links.modify index (·.say (·.sendText message)) }
  | .deliver index now => { s with links := s.links.modify index (·.deliver parse now) }
  | .remote index input => { s with links := s.links.modify index (·.remote parse input) }
  | .stop => { s with held := .empty, heldBytes := 0, links := [] }
def Swarm.run (s : Swarm) (steps : List Step) : Swarm := steps.foldl (Swarm.step parse) s
/-- Every step of a run passes a check in the state before it. -/
def Swarm.passes (check : Swarm → Step → Bool) : Swarm → List Step → Bool
  | _,[] => true
  | s,step :: rest => check s step && Swarm.passes check (s.step parse step) rest
end

/-- Objects are held under the SHA-256 of what they are. -/
def hashed : Step → Bool
  | .hold key .. => hex key 64
  | _ => true
/-- What a step evicts. -/
def Swarm.evicts (s : Swarm) : Step → List String
  | .hold key size reservation pinned allowed _ =>
    if s.declines key size allowed then []
    else ((s.taken key size).trimmed (s.options.maxHeldBytes - reservation) pinned).evicted
  | .reserve size pinned => (s.trimmed (s.options.maxHeldBytes - size) pinned).evicted
  | _ => []
/-- The links can be told of all a step evicts: it is no more than a receiver reads, and
    serving is not given up between the trim and the message. -/
def announced (s : Swarm) (step : Step) : Bool :=
  (s.evicts step).length ≤ maxHaveKeys &&
    match step with
    | .hold _ _ _ _ _ still => still || (s.evicts step).isEmpty
    | _ => true

end RelaySwarm.Held
