import RelaySwarm.Held

/-!
What a swarm with a steady peer window tells its links of the objects it is fetching from
the origin. A claim of an object is announced as a lease of two seconds, and again every
second while it lasts; the last release withdraws the lease, at once or, for a body that
may still be announced itself, when the swarm has taken it in or a second has passed.
-/
namespace RelaySwarm.FetchLease
open Held

inductive Message where
  | fetching (key : String) (leaseMs : Nat)
  | haveChange (added removed : List String)
  | haves (keys : List String)
deriving DecidableEq
/-- A message to every link there is at a time. -/
structure Broadcast where
  time : Nat
  links : List Nat
  message : Message
deriving DecidableEq

/-- What a timer does: each knows the row it was made for. -/
inductive Action where
  | renew (key : String) (row : Nat)
  | withdraw (key : String) (row : Nat)
deriving DecidableEq
def Action.key : Action → String
  | .renew key _ => key
  | .withdraw key _ => key
structure Timer where
  id : Nat
  due : Nat
  action : Action
deriving DecidableEq
/-- A row of the fetches, an object of its own, with its timers. -/
structure Row where
  serial : Nat
  renew : Option Nat
  withdraw : Option Nat
deriving DecidableEq
/-- A claim as its holder has it; one that was refused counts for nothing. -/
structure Claim where
  key : String
  counted : Bool
  released : Bool

structure Options where
  held : Held.Options
  maxConcurrentRaces : Nat
structure State where
  options : Options
  now : Nat
  claims : List Claim
  originFetches : IndexMap String Nat
  steadyFetches : IndexMap String Row
  /-- The rows made so far. -/
  rows : Nat
  timers : List Timer
  /-- The timers made so far. -/
  made : Nat
  /-- The sizes of the held objects. -/
  held : IndexMap String Nat
  heldBytes : Int
  links : List Nat
  log : List Broadcast
  fetchRenewalsSent : Nat
def State.start (options : Options) : State where
  options := options
  now := 0
  claims := []
  originFetches := .empty
  steadyFetches := .empty
  rows := 0
  timers := []
  made := 0
  held := .empty
  heldBytes := 0
  links := []
  log := []
  fetchRenewalsSent := 0

namespace State

def tell (s : State) (message : Message) : State := { s with log := s.log ++ [⟨s.now,s.links,message⟩] }
/-- A timer of a swarm that has not been stopped. -/
def after (s : State) (ms : Nat) (action : Action) : State :=
  { s with timers := s.timers ++ [⟨s.made,s.now + ms,action⟩],made := s.made + 1 }
def clearTimer (s : State) (timer : Option Nat) : State :=
  match timer with
  | none => s
  | some id => { s with timers := s.timers.filter (·.id ≠ id) }
def setRow (s : State) (key : String) (row : Row) : State := { s with steadyFetches := s.steadyFetches.insert key row }

/-! ### Leases -/

/-- The withdrawal of a row that has no renewal; none is told while the object is claimed. -/
def flushRow (s : State) (key : String) (row : Row) : State :=
  if row.renew ≠ none then s
  else
    let s := s.clearTimer row.withdraw
    let s := { s with steadyFetches := s.steadyFetches.erase key }
    if s.originFetches.contains key then s else s.tell (.fetching key 0)
def flushFetchWithdrawal (s : State) (key : String) : State :=
  match s.steadyFetches.get? key with
  | none => s
  | some row => s.flushRow key row
/-- A claim takes the place of a withdrawal that waits, and the lease is renewed. -/
def renewFetch (s : State) (key : String) : State :=
  let (s,row) := match s.steadyFetches.get? key with
    | some row => (s,row)
    | none => ({ s with rows := s.rows + 1 },⟨s.rows,none,none⟩)
  let s := s.clearTimer row.withdraw
  if row.renew ≠ none then s.setRow key { row with withdraw := none }
  else (s.after 1000 (.renew key row.serial)).setRow key { row with withdraw := none,renew := some s.made }
def withdrawFetch (s : State) (key : String) (announce : Bool) : State :=
  match s.steadyFetches.get? key with
  | none => s
  | some row =>
    let s := s.clearTimer row.renew
    let row := { row with renew := none }
    if announce ∧ s.held.contains key = false ∧ row.withdraw = none then
      (s.after 1000 (.withdraw key row.serial)).setRow key { row with withdraw := some s.made }
    else (s.setRow key row).flushRow key row

/-- A claim, unless serving is not allowed or too much is fetched. -/
def claimOrigin (s : State) (key : String) (allowed : Bool) : State :=
  if !allowed ∨ s.options.maxConcurrentRaces ≤ s.originFetches.length then
    { s with claims := s.claims ++ [⟨key,false,false⟩] }
  else
    let count := (s.originFetches.get? key).getD 0
    let s := { s with originFetches := s.originFetches.insert key (count + 1) }
    let s := (s.tell (.fetching key 2000)).renewFetch key
    { s with claims := s.claims ++ [⟨key,true,false⟩] }
/-- The release that a claim returned; it works once. -/
def release (s : State) (index : Nat) (announce : Bool) : State :=
  match s.claims[index]? with
  | none => s
  | some claim =>
    if !claim.counted ∨ claim.released then s
    else
      let s := { s with claims := s.claims.set index { claim with released := true } }
      let count := (s.originFetches.get? claim.key).getD 0
      let remaining := (if count = 0 then 1 else count) - 1
      if 0 < remaining then { s with originFetches := s.originFetches.insert claim.key remaining }
      else ({ s with originFetches := s.originFetches.erase claim.key }).withdrawFetch claim.key announce

/-- A timer that is due. One whose row is no longer the key's does nothing. -/
def fire (s : State) (id : Nat) : State :=
  match s.timers.find? (·.id = id) with
  | none => s
  | some timer =>
    if s.now < timer.due then s
    else
      let s := { s with timers := s.timers.filter (·.id ≠ id) }
      match s.steadyFetches.get? timer.action.key with
      | none => s
      | some row =>
        match timer.action with
        | .renew key serial =>
          if row.serial ≠ serial then s
          else
            let s := s.setRow key { row with renew := none }
            if s.originFetches.contains key = false then s
            else
              let s := s.tell (.fetching key 2000)
              let s := { s with fetchRenewalsSent := s.fetchRenewalsSent + 1 }
              (s.after 1000 (.renew key serial)).setRow key { row with renew := some s.made }
        | .withdraw key serial =>
          if row.serial ≠ serial then s
          else (s.setRow key { row with withdraw := none }).flushRow key { row with withdraw := none }

/-! ### Objects and links -/

/-- An object is not taken in. -/
def declines (s : State) (key : String) (size : Nat) (allowed : Bool) : Bool :=
  !allowed || s.held.contains key || s.options.held.maxSegmentBytes < size
def trimmed (s : State) (limit : Int) (pinned : String → Bool) : Trimmed :=
  trim s.options.held.maxHeldSegments limit pinned s.held.length s.held s.heldBytes
/-- The object held, and what of the rest is dropped for it. -/
def taking (s : State) (key : String) (size reservation : Nat) (pinned : String → Bool) : Trimmed :=
  { s with held := s.held.insert key size, heldBytes := s.heldBytes + size }.trimmed
    (s.options.held.maxHeldBytes - reservation) pinned
/-- An object is taken in and announced, and a withdrawal that waits for it follows. -/
def hold (s : State) (key : String) (size reservation : Nat) (pinned : String → Bool) (allowed still : Bool) : State :=
  if s.declines key size allowed then s.flushFetchWithdrawal key
  else
    let t := s.taking key size reservation pinned
    let s := { s with held := t.held,heldBytes := t.bytes }
    if !still then s.flushFetchWithdrawal key
    else (s.tell (.haveChange (if t.held.contains key then [key] else []) t.evicted)).flushFetchWithdrawal key
def dropHeld (s : State) (key : String) : State :=
  match s.held.get? key with
  | none => s
  | some size => { s with held := s.held.erase key,heldBytes := s.heldBytes - size }.tell (.haveChange [] [key])
def trimHeld (s : State) (limit : Int) (pinned : String → Bool) : State :=
  let t := s.trimmed limit pinned
  let s := { s with held := t.held,heldBytes := t.bytes }
  if t.evicted.isEmpty then s else s.tell (.haveChange [] t.evicted)
def withdrawHeld (s : State) : State := { s with held := .empty,heldBytes := 0 }.tell (.haves [])
/-- A link that opens is told of what is held and fetched, while serving is allowed. -/
def linkOpened (s : State) (link : Nat) (allowed : Bool) : State :=
  let messages := if allowed then .haves s.held.keys :: s.originFetches.keys.map (fun key => .fetching key 2000) else []
  { s with links := s.links ++ [link],log := s.log ++ messages.map (fun message => ⟨s.now,[link],message⟩) }
def linkClosed (s : State) (link : Nat) : State := { s with links := s.links.filter (· ≠ link) }

end State

/-! ### Runs -/

inductive Event where
  | claim (key : String) (allowed : Bool)
  | release (index : Nat) (announce : Bool)
  | fire (timer : Nat)
  | wait (ms : Nat)
  | hold (key : String) (size reservation : Nat) (pinned : String → Bool) (allowed still : Bool)
  | dropHeld (key : String)
  | trimHeld (limit : Int) (pinned : String → Bool)
  | withdrawHeld
  | linkOpened (link : Nat) (allowed : Bool)
  | linkClosed (link : Nat)

open State in
def State.step (s : State) : Event → State
  | .claim key allowed => s.claimOrigin key allowed
  | .release index announce => s.release index announce
  | .fire timer => s.fire timer
  | .wait ms => { s with now := s.now + ms }
  | .hold key size reservation pinned allowed still => s.hold key size reservation pinned allowed still
  | .dropHeld key => s.dropHeld key
  | .trimHeld limit pinned => s.trimHeld limit pinned
  | .withdrawHeld => s.withdrawHeld
  | .linkOpened link allowed => s.linkOpened link allowed
  | .linkClosed link => s.linkClosed link
def State.run (s : State) (events : List Event) : State := events.foldl State.step s
end RelaySwarm.FetchLease
