import RelaySwarm.IndexMap
import RelaySwarm.Script

/-!
Bounded advisory neighbour discovery: demand, hints and holder misses for each
context, and at most one replacement window at a time. Contexts, windows and attempts
are known by ids.
-/
namespace RelaySwarm.Neighbours
open RelaySwarm.Script

def staleHolderMisses : Nat := 4
def staleHolderMs : Nat := 10000
def maxHolders : Nat := 8
def replacementRearmMs : Nat := 20000
def maxCandidates : Nat := 64
def maxCandidateKeys : Nat := 8
def contextIdleMs : Nat := 30000
def candidateFreshMs : Nat := 60000
def windowMs : Nat := 15000

inductive MediaType where
  | main | audio
deriving DecidableEq
def MediaType.parse (value : String) : Option MediaType :=
  if value = "main" then some .main else if value = "audio" then some .audio else none
structure Holder where
  firstMissAt : Nat
  misses : Nat
  lastKey : String
deriving DecidableEq
structure Candidate where
  pubkey : String
  haves : List String
  ticket : Option String
  hintedAt : Nat
deriving DecidableEq
structure Counters where
  checks : Nat
  replacements : Nat
  expired : Nat
  opened : Nat
  verified : Nat
  staleHolder : Nat
  staleBlocked : Nat
  heldMiss : Nat
  rearmed : Nat
  victimUnhelpful : Nat
  victimServing : Nat
  victimConsumer : Nat
  unmetNoHint : Nat
  unmetIneligible : Nat
deriving DecidableEq
def Counters.zero : Counters := ⟨0,0,0,0,0,0,0,0,0,0,0,0,0,0⟩
structure Snapshot where
  candidates : Nat
  contexts : Nat
  requestedKeys : Nat
  replacementSpent : Nat
  opportunityActive : Bool
  remainingMs : Nat
  vacancyReserved : Bool
  counters : Counters
deriving DecidableEq

/-- The values of a list, each where it is first met. -/
def firsts (values : List String) : List String :=
  values.foldl (fun seen value => if value ∈ seen then seen else seen ++ [value]) []
/-- A peer's advertised keys and ticket. -/
def hinted (validTicket : String → Bool) (now : Nat) (pubkey : String) (keys : List String) (ticket : Option String) :
    Candidate :=
  let distinct := firsts (keys.filter (fun key => hex key 64))
  ⟨pubkey,distinct.drop (distinct.length - maxCandidateKeys),ticket.filter validTicket,now⟩
def Candidate.fresh (candidate : Candidate) (now : Nat) : Bool :=
  candidate.hintedAt ≤ now && now - candidate.hintedAt < candidateFreshMs
/-- The candidates after a hint, the newest last. -/
def addCandidate (candidates : IndexMap String Candidate) (candidate : Candidate) : IndexMap String Candidate :=
  let next := (candidates.erase candidate.pubkey).insert candidate.pubkey candidate
  if maxCandidates < next.length then next.dropFirst else next
/-- The holders after a miss, and whether it is a new one. -/
def addMiss (holders : IndexMap String Holder) (now : Nat) (pubkey key : String) : IndexMap String Holder × Bool :=
  match holders.get? pubkey with
  | some entry =>
    if entry.lastKey = key then (holders,false)
    else (holders.insert pubkey { entry with misses := entry.misses + 1, lastKey := key },true)
  | none => ((if maxHolders ≤ holders.length then holders.dropFirst else holders).insert pubkey ⟨now,1,key⟩,true)

structure Context where
  id : Nat
  mediaType : MediaType
  rendition : String
  keys : List String
  lastDemandAt : Option Nat
  activityAt : Nat
  spent : Bool
  spentAt : Option Nat
  holders : IndexMap String Holder
structure Attempt where
  id : Nat
  window : Nat
  pubkey : String
  ticket : Option String
  key : String
  dial : Option Nat
structure Window where
  id : Nat
  /-- The context the window serves, which may since have been replaced. -/
  context : Nat
  mediaType : MediaType
  createdAt : Nat
  expiresAt : Nat
  attempt : Option Attempt
  vacant : Bool
  victim : Option String
/-- A hinted candidate for a demanded key. -/
structure Found where
  context : Nat
  mediaType : MediaType
  candidate : Candidate
  key : String
  lastDemandAt : Option Nat
structure NeighbourDiscovery where
  contexts : IndexMap MediaType Context
  candidates : IndexMap String Candidate
  window : Option Window
  attempts : IndexMap Nat Attempt
  nextId : Nat
  counters : Counters
def NeighbourDiscovery.new : NeighbourDiscovery := ⟨.empty,.empty,none,.empty,0,.zero⟩

namespace NeighbourDiscovery
variable (d : NeighbourDiscovery)

def liveContext (id : Nat) : Option Context := d.contexts.values.find? (·.id = id)
def modifyContext (id : Nat) (f : Context → Context) : NeighbourDiscovery :=
  { d with contexts := d.contexts.mapValues (fun _ context => if context.id = id then f context else context) }
def idle (since now : Nat) : Bool := now < since || contextIdleMs ≤ now - since
/-- The live context for this media type and rendition, created or reset after 30 s
    without activity or demand. -/
def context (now : Nat) (mediaType rendition : String) : Option Nat × NeighbourDiscovery :=
  match MediaType.parse mediaType with
  | none => (none,d)
  | some mediaType =>
    match (d.contexts.get? mediaType).filter (·.rendition = rendition) with
    | none =>
      let id := d.nextId + 1
      (some id,{ d with
        nextId := id
        contexts := d.contexts.insert mediaType ⟨id,mediaType,rendition,[],none,now,false,none,.empty⟩ })
    | some context =>
      let reset := idle context.activityAt now || context.lastDemandAt.any (fun moment => idle moment now)
      (some context.id,d.modifyContext context.id (fun context =>
        if reset then { context with keys := [], lastDemandAt := none, holders := .empty, activityAt := now }
        else { context with activityAt := now }))
def live (now : Nat) : Bool := d.window.any (fun window => window.createdAt ≤ now && now < window.expiresAt)
/-- The key of the attempt in flight for a context. -/
def pinned (now id : Nat) : Option String :=
  match d.window with
  | some window => if d.live now && window.context = id then window.attempt.map (·.key) else none
  | none => none
/-- Record demand for a key; the two most recent ones are kept, and the key of an
    attempt in flight comes first. -/
def demand (now : Nat) (mediaType rendition key : String) : Option Nat × NeighbourDiscovery :=
  match d.context now mediaType rendition with
  | (none,d) => (none,d)
  | (some id,d) =>
    if hex key 64 then
      (some id,d.modifyContext id (fun context => { context with
        keys := (firsts ((d.pinned now id).toList ++ key :: context.keys)).take 2, lastDemandAt := some now }))
    else (none,d)
def hint (validTicket : String → Bool) (now : Nat) (pubkey : String) (keys : List String) (ticket : Option String) :
    NeighbourDiscovery :=
  if hex pubkey 64 then { d with candidates := addCandidate d.candidates (hinted validTicket now pubkey keys ticket) }
    else d
/-- Record a failed judged holder once for each distinct key. -/
def holderMiss (now : Nat) (context : Option Nat) (pubkey key : String) : Bool × NeighbourDiscovery :=
  if !hex pubkey 64 || !hex key 64 then (false,d)
  else match context.bind d.liveContext with
    | none => (false,d)
    | some context =>
      ((addMiss context.holders now pubkey key).2,
        d.modifyContext context.id (fun context =>
          { context with holders := (addMiss context.holders now pubkey key).1 }))
def holderAhead (context : Option Nat) (pubkey : String) : NeighbourDiscovery :=
  match context.bind d.liveContext with
  | none => d
  | some context => d.modifyContext context.id (fun context => { context with holders := context.holders.erase pubkey })
/-- A difference of two readings of 64 bits, read as a signed number. -/
def signedSince (now since : Nat) : Int :=
  let difference : Nat := (now + 2 ^ 64 - since) % 2 ^ 64
  if difference < 2 ^ 63 then difference else (difference : Int) - 2 ^ 64
def stale (now : Nat) (context : Option Nat) (pubkey : String) : Bool :=
  match (context.bind d.liveContext).bind (fun context => context.holders.get? pubkey) with
  | none => false
  | some entry => staleHolderMisses ≤ entry.misses && (staleHolderMs : Int) ≤ signedSince now entry.firstMissAt
def forget (pubkey : String) : NeighbourDiscovery :=
  { d with
    contexts := d.contexts.mapValues (fun _ context => { context with holders := context.holders.erase pubkey }) }
def currentContext (context : Context) (now : Nat) : Bool :=
  !idle context.activityAt now && context.lastDemandAt.any (fun moment => !idle moment now)
def current (now id : Nat) : Bool := (d.liveContext id).any (fun context => currentContext context now)
def spent (id : Nat) : Bool := (d.liveContext id).any (·.spent)
/-- The first candidate, and the first demanded key it has. -/
def findHinted (keys : List String) (now : Nat) (eligible : Candidate → Bool) :
    List Candidate → Option (Candidate × String)
  | [] => none
  | candidate :: rest =>
    if !candidate.fresh now || !eligible candidate then findHinted keys now eligible rest
    else match keys.find? (fun key => key ∈ candidate.haves) with
      | some key => some (candidate,key)
      | none => findHinted keys now eligible rest
/-- A fresh eligible candidate that hints a key this context demands. -/
def hintedFor (now id : Nat) (eligible : Candidate → Bool) : Option Found :=
  match d.liveContext id with
  | none => none
  | some context =>
    (findHinted context.keys now eligible d.candidates.values).map
      (fun found => ⟨context.id,context.mediaType,found.1,found.2,context.lastDemandAt⟩)
/-- The contexts in turn: the first that finds a candidate, and which reasons the others
    had to find none. -/
def chooseFrom (now : Nat) (eligible : Candidate → Bool) (unmet : MediaType → Bool) (room vacant : Bool) :
    List (Nat × MediaType) → Bool → Bool → Counters → Option Found × Counters
  | [],_,_,counters => (none,counters)
  | (id,mediaType) :: rest,noHint,ineligible,counters =>
    if !d.current now id || !unmet mediaType || (!room && d.spent id && !vacant) then
      chooseFrom now eligible unmet room vacant rest noHint ineligible counters
    else match d.hintedFor now id eligible with
      | some found => (some found,counters)
      | none =>
        if (d.hintedFor now id (fun _ => true)).isSome then
          chooseFrom now eligible unmet room vacant rest noHint true
            (if ineligible then counters else { counters with unmetIneligible := counters.unmetIneligible + 1 })
        else
          chooseFrom now eligible unmet room vacant rest true ineligible
            (if noHint then counters else { counters with unmetNoHint := counters.unmetNoHint + 1 })
/-- The contexts to search: that of the open window, else all. -/
def searched : List (Nat × MediaType) :=
  match d.window with
  | some window => [(window.context,window.mediaType)]
  | none => d.contexts.values.map (fun context => (context.id,context.mediaType))
/-- A hinted candidate for an unmet current context. -/
def choose (now : Nat) (eligible : Candidate → Bool) (unmet : MediaType → Bool) (room : Bool) :
    Option Found × NeighbourDiscovery :=
  if d.window.any (fun window => window.attempt.isSome) then (none,d)
  else
    let chosen := d.chooseFrom now eligible unmet room (d.window.any (·.vacant)) d.searched false false d.counters
    (chosen.1,{ d with counters := chosen.2 })
/-- Re-arm at most once per interval, only for current demand with no fresh serving link. -/
def rearm (now id : Nat) (allStale : Bool) : Bool × NeighbourDiscovery :=
  match (d.liveContext id).bind (·.spentAt) with
  | none => (false,d)
  | some spentAt =>
    if now < spentAt || now - spentAt < replacementRearmMs || !d.current now id || !allStale then (false,d)
    else (true,{ d.modifyContext id (fun context => { context with spent := false, spentAt := none }) with
      counters := { d.counters with rearmed := d.counters.rearmed + 1 } })
/-- The window, opened when none is. -/
def opened (now : Nat) (found : Found) : NeighbourDiscovery × Window :=
  match d.window with
  | some window => (d,window)
  | none =>
    let window : Window := {
      id := d.nextId + 1, context := found.context, mediaType := found.mediaType, createdAt := now
      expiresAt := min (min (now + windowMs) (found.candidate.hintedAt + candidateFreshMs))
        (found.lastDemandAt.getD 0 + contextIdleMs)
      attempt := none, vacant := false, victim := none }
    ({ d with nextId := d.nextId + 1, window := some window },window)
/-- Open the window if none is open, then start one attempt. -/
def begin' (now : Nat) (found : Found) : Option Nat × NeighbourDiscovery :=
  match d.opened now found with
  | (d,window) =>
    if window.context ≠ found.context || window.attempt.isSome || window.expiresAt ≤ now then (none,d)
    else
      let attempt : Attempt := ⟨d.nextId + 1,window.id,found.candidate.pubkey,found.candidate.ticket,found.key,none⟩
      (some attempt.id,{ d with
        nextId := d.nextId + 1
        attempts := (d.attempts.retain (fun _ stored => stored.window = window.id)).insert attempt.id attempt
        window := some { window with attempt := some attempt }
        counters := { d.counters with checks := d.counters.checks + 1 } })
def windowAttempt (id : Nat) : Option (Window × Attempt) :=
  match d.window with
  | none => none
  | some window => (window.attempt.filter (·.id = id)).map (fun attempt => (window,attempt))
/-- The attempt is still the window's, current and freshly hinted. -/
def valid (now id : Nat) : Bool :=
  match d.windowAttempt id with
  | none => false
  | some (window,attempt) =>
    match d.candidates.get? attempt.pubkey with
    | none => false
    | some candidate => d.live now && d.current now window.context && candidate.fresh now &&
        candidate.ticket = attempt.ticket && attempt.key ∈ candidate.haves
/-- Spend this context's one replacement, dropping the victim for the attempt. -/
def replaced (now id : Nat) (victim : Option String) : Bool × NeighbourDiscovery :=
  if !d.valid now id then (false,d)
  else match d.window with
    | none => (false,d)
    | some window =>
      if d.spent window.context then (false,d)
      else (true,
        { d.modifyContext window.context (fun context => { context with spent := true, spentAt := some now }) with
        window := some { window with vacant := true, victim := victim }
        counters := { d.counters with replacements := d.counters.replacements + 1 } })
def allocated (id dial : Nat) : NeighbourDiscovery :=
  match d.attempts.get? id with
  | none => d
  | some stored => { d with
      attempts := d.attempts.modify id (fun stored => { stored with dial := some dial })
      window := d.window.map (fun window =>
        if window.id = stored.window then { window with
          vacant := false
          attempt := window.attempt.map (fun attempt => if attempt.id = id then { attempt with dial := some dial }
            else attempt) }
        else window) }
def abandoned (id : Nat) : NeighbourDiscovery :=
  if (d.windowAttempt id).isSome then { d with window := d.window.map (fun window => { window with attempt := none }) }
    else d
def failed (dial : Nat) : NeighbourDiscovery := { d with
  window := d.window.map (fun window =>
    if window.attempt.any (fun attempt => attempt.dial = some dial) then
      { window with attempt := none, vacant := window.victim.isSome }
    else window) }
def end' : Bool × NeighbourDiscovery := (d.window.isSome,{ d with attempts := .empty, window := none })
/-- A verified peer segment re-arms the context's replacement. -/
def verified (context : Option Nat) : Bool × NeighbourDiscovery :=
  match context.bind d.liveContext with
  | none => (false,d)
  | some context =>
    (true,{ d.modifyContext context.id (fun context => { context with spent := false, spentAt := none }) with
      counters := { d.counters with verified := d.counters.verified + 1 } })
def reserved (now : Nat) : Bool :=
  d.live now && d.window.any (fun window => window.vacant && d.current now window.context)
def suppresses (now : Nat) (pubkey : String) : Bool :=
  d.live now && d.window.any (fun window => window.victim = some pubkey)
def snapshot (now : Nat) : Snapshot where
  candidates := d.candidates.length
  contexts := d.contexts.length
  requestedKeys := (d.contexts.values.map (fun context => context.keys.length)).sum
  replacementSpent := (d.contexts.values.filter (·.spent)).length
  opportunityActive := d.live now
  remainingMs := match d.window with
    | some window => if d.live now then min windowMs (window.expiresAt - now) else 0
    | none => 0
  vacancyReserved := d.reserved now
  counters := d.counters
def clear : NeighbourDiscovery :=
  { d with window := none, contexts := .empty, candidates := .empty, attempts := .empty }
end NeighbourDiscovery

end RelaySwarm.Neighbours
