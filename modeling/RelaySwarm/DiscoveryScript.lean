import RelaySwarm.Discovery

/-!
Neighbour discovery as the browser runs it. Contexts, windows and attempts are objects,
known by where they were allocated; the callers keep them, and an object stays reachable
after it was replaced. Every object that is made takes the next address.
-/
namespace RelaySwarm.Neighbours
open RelaySwarm.Script

/-- A context; it is spent exactly while `spentAt` is not null. -/
structure ContextObject where
  mediaType : MediaType
  rendition : String
  keys : List String
  lastDemandAt : Option Nat
  activityAt : Nat
  spentAt : Option Nat
  holders : IndexMap String Holder
def ContextObject.spent (context : ContextObject) : Bool := context.spentAt.isSome
/-- A context is looked up: after 30 s without activity or demand, or when the clock went
    back, it starts again. -/
def ContextObject.touched (context : ContextObject) (now : Nat) : ContextObject :=
  if now < context.activityAt || contextIdleMs ≤ now - context.activityAt
    || context.lastDemandAt.any (fun moment => now < moment || contextIdleMs ≤ now - moment)
  then { context with keys := [], lastDemandAt := none, activityAt := now, holders := .empty }
  else { context with activityAt := now }
structure WindowObject where
  context : Nat
  createdAt : Nat
  expiresAt : Nat
  attempt : Option Nat
  vacant : Bool
  victim : Option String
structure AttemptObject where
  window : Nat
  pubkey : String
  ticket : Option String
  key : String
  dial : Option Nat
/-- What `choose` returns. -/
structure Choice where
  context : Nat
  candidate : Candidate
  key : String
deriving DecidableEq

/-- What is at each address, of one kind of object. -/
abbrev Heap (α : Type) := Nat → Option α
def Heap.put (h : Heap α) (a : Nat) (object : α) : Heap α := fun b => if b = a then some object else h b
def Heap.update (h : Heap α) (a : Nat) (f : α → α) : Heap α := fun b => if b = a then (h b).map f else h b

/-- The state of the script: its maps hold addresses. -/
structure Script where
  contextAt : Heap ContextObject
  windowAt : Heap WindowObject
  attemptAt : Heap AttemptObject
  /-- The last address that was taken, by an object of any kind. -/
  allocations : Nat
  contexts : IndexMap MediaType Nat
  candidates : IndexMap String Candidate
  window : Option Nat
  counters : Counters
def Script.new : Script := ⟨fun _ => none,fun _ => none,fun _ => none,0,.empty,.empty,none,.zero⟩

namespace Script
variable (s : Script)

def updateContext (a : Nat) (f : ContextObject → ContextObject) : Script :=
  { s with contextAt := s.contextAt.update a f }
def updateWindow (a : Nat) (f : WindowObject → WindowObject) : Script := { s with windowAt := s.windowAt.update a f }
def updateAttempt (a : Nat) (f : AttemptObject → AttemptObject) : Script :=
  { s with attemptAt := s.attemptAt.update a f }

def context (now : Nat) (mediaType rendition : String) : Option Nat × Script :=
  match MediaType.parse mediaType with
  | none => (none,s)
  | some mediaType =>
    match (s.contexts.get? mediaType).filter (fun a => (s.contextAt a).any (·.rendition = rendition)) with
    | none =>
      let a := s.allocations + 1
      (some a,{ s with
        contextAt := s.contextAt.put a ⟨mediaType,rendition,[],none,now,none,.empty⟩
        allocations := a
        contexts := s.contexts.insert mediaType a })
    | some a => (some a,s.updateContext a (·.touched now))
/-- Whether an object is the window, and the window is open. -/
def liveWindow (now a : Nat) : Bool :=
  s.window = some a && (s.windowAt a).any (fun window => window.createdAt ≤ now && now < window.expiresAt)
def live (now : Nat) : Bool := s.window.any (s.liveWindow now)
def windowAttempt : Option Nat := (s.window.bind s.windowAt).bind (·.attempt)
def demand (now : Nat) (mediaType rendition key : String) : Option Nat × Script :=
  match s.context now mediaType rendition with
  | (none,s) => (none,s)
  | (some a,s) =>
    if hex key 64 then
      let pinned :=
        if s.live now && (s.window.bind s.windowAt).any (·.context = a) then
          (s.windowAttempt.bind s.attemptAt).map (·.key)
        else none
      (some a,s.updateContext a (fun context => { context with
        keys := (firsts ((pinned.filter (· ≠ "")).toList ++ key :: context.keys)).take 2, lastDemandAt := some now }))
    else (none,s)
def hint (validTicket : String → Bool) (now : Nat) (pubkey : String) (keys : List String)
    (ticket : Option String) : Script :=
  if hex pubkey 64 then { s with candidates := addCandidate s.candidates (hinted validTicket now pubkey keys ticket) }
    else s
/-- The context is the one its media type has now. -/
def liveContext (a : Nat) : Option ContextObject :=
  (s.contextAt a).filter (fun context => s.contexts.get? context.mediaType = some a)
def holderMiss (now : Nat) (context : Option Nat) (pubkey key : String) : Bool × Script :=
  match context.bind (fun a => (s.liveContext a).map (fun object => (a,object))) with
  | none => (false,s)
  | some (a,object) =>
    if !hex pubkey 64 || !hex key 64 then (false,s)
    else ((addMiss object.holders now pubkey key).2,
      s.updateContext a (fun context => { context with holders := (addMiss context.holders now pubkey key).1 }))
def holderAhead (context : Option Nat) (pubkey : String) : Script :=
  match context.bind (fun a => (s.liveContext a).map (fun object => (a,object))) with
  | none => s
  | some (a,_) => s.updateContext a (fun context => { context with holders := context.holders.erase pubkey })
def stale (now : Nat) (context : Option Nat) (pubkey : String) : Bool :=
  match (context.bind s.liveContext).bind (fun context => context.holders.get? pubkey) with
  | none => false
  | some entry => staleHolderMisses ≤ entry.misses && (staleHolderMs : Int) ≤ (now : Int) - entry.firstMissAt
def forget (pubkey : String) : Script :=
  s.contexts.values.foldl (fun s a => s.updateContext a (fun context =>
    { context with holders := context.holders.erase pubkey })) s
def current (now a : Nat) : Bool :=
  (s.liveContext a).any (fun context => context.activityAt ≤ now && now - context.activityAt < contextIdleMs &&
    context.lastDemandAt.any (fun moment => moment ≤ now && now - moment < contextIdleMs))
/-- Whether any fresh candidate hints a demanded key, eligible or not. -/
def hinting (now a : Nat) : Bool :=
  (s.contextAt a).any (fun context => s.candidates.values.any (fun candidate =>
    candidate.fresh now && context.keys.any (fun key => key ∈ candidate.haves)))
/-- A fresh eligible candidate that hints a key this context demands. -/
def findHinted (keys : List String) (now : Nat) (eligible : Candidate → Bool) :
    List Candidate → Option (Candidate × String)
  | [] => none
  | candidate :: rest =>
    if !candidate.fresh now || !eligible candidate then findHinted keys now eligible rest
    else match keys.find? (fun key => key ∈ candidate.haves) with
      -- an empty text is no key
      | some key => if key = "" then findHinted keys now eligible rest else some (candidate,key)
      | none => findHinted keys now eligible rest
def hintedFor (now a : Nat) (eligible : Candidate → Bool) : Option Choice :=
  match s.contextAt a with
  | none => none
  | some context =>
    (findHinted context.keys now eligible s.candidates.values).map (fun found => ⟨a,found.1,found.2⟩)
def spent (a : Nat) : Bool := (s.contextAt a).any ContextObject.spent
def chooseFrom (now : Nat) (eligible : Candidate → Bool) (unmet : MediaType → Bool) (room vacant : Bool) :
    List Nat → Bool → Bool → Counters → Option Choice × Counters
  | [],_,_,counters => (none,counters)
  | a :: rest,noHint,ineligible,counters =>
    if !s.current now a || !(s.contextAt a).any (fun context => unmet context.mediaType) ||
      (!room && s.spent a && !vacant) then
      chooseFrom now eligible unmet room vacant rest noHint ineligible counters
    else match s.hintedFor now a eligible with
      | some found => (some found,counters)
      | none =>
        if s.hinting now a then
          chooseFrom now eligible unmet room vacant rest noHint true
            (if ineligible then counters else { counters with unmetIneligible := counters.unmetIneligible + 1 })
        else
          chooseFrom now eligible unmet room vacant rest true ineligible
            (if noHint then counters else { counters with unmetNoHint := counters.unmetNoHint + 1 })
def searched : List Nat :=
  match s.window.bind s.windowAt with
  | some window => [window.context]
  | none => s.contexts.values
def choose (now : Nat) (eligible : Candidate → Bool) (unmet : MediaType → Bool) (room : Bool) :
    Option Choice × Script :=
  if s.windowAttempt.isSome then (none,s)
  else
    let chosen :=
      s.chooseFrom now eligible unmet room ((s.window.bind s.windowAt).any (·.vacant)) s.searched false false
      s.counters
    (chosen.1,{ s with counters := chosen.2 })
def rearm (now a : Nat) (allStale : Bool) : Bool × Script :=
  match (s.liveContext a).bind (·.spentAt) with
  | none => (false,s)
  | some spentAt =>
    if now < spentAt || now - spentAt < replacementRearmMs || !s.current now a || !allStale then (false,s)
    else (true,{ s.updateContext a (fun context => { context with spentAt := none }) with
      counters := { s.counters with rearmed := s.counters.rearmed + 1 } })
def opened (now : Nat) (choice : Choice) : Script × Nat :=
  match s.window with
  | some a => (s,a)
  | none =>
    let lastDemandAt := ((s.contextAt choice.context).bind (·.lastDemandAt)).getD 0
    let a := s.allocations + 1
    ({ s with
      windowAt := s.windowAt.put a {
        context := choice.context, createdAt := now
        expiresAt :=
          min (min (now + windowMs) (choice.candidate.hintedAt + candidateFreshMs)) (lastDemandAt + contextIdleMs)
        attempt := none, vacant := false, victim := none }
      allocations := a
      window := some a },a)
def begin' (now : Nat) (choice : Choice) : Option Nat × Script :=
  match s.opened now choice with
  | (s,a) =>
    match s.windowAt a with
    | none => (none,s)
    | some window =>
      if window.context ≠ choice.context || window.attempt.isSome || window.expiresAt ≤ now then (none,s)
      else
        let attempt := s.allocations + 1
        (some attempt,{ s.updateWindow a (fun window => { window with attempt := some attempt }) with
          attemptAt := s.attemptAt.put attempt ⟨a,choice.candidate.pubkey,choice.candidate.ticket,choice.key,none⟩
          allocations := attempt
          counters := { s.counters with checks := s.counters.checks + 1 } })
def valid (now a : Nat) : Bool :=
  match s.attemptAt a with
  | none => false
  | some attempt =>
    match s.windowAt attempt.window,s.candidates.get? attempt.pubkey with
    | some window,some candidate => s.liveWindow now attempt.window && window.attempt = some a &&
        s.current now window.context && candidate.fresh now && candidate.ticket = attempt.ticket &&
        attempt.key ∈ candidate.haves
    | _,_ => false
def replaced (now a : Nat) (victim : Option String) : Bool × Script :=
  if !s.valid now a then (false,s)
  else match s.attemptAt a with
    | none => (false,s)
    | some attempt =>
      match s.windowAt attempt.window with
      | none => (false,s)
      | some window =>
        if s.spent window.context then (false,s)
        else (true,{ (s.updateContext window.context (fun context => { context with spentAt := some now })).updateWindow
            attempt.window (fun window => { window with vacant := true, victim := victim }) with
          counters := { s.counters with replacements := s.counters.replacements + 1 } })
/-- The attempt and its window are written through references, current or not. -/
def allocated (a dial : Nat) : Script :=
  match s.attemptAt a with
  | none => s
  | some attempt => (s.updateAttempt a (fun attempt => { attempt with dial := some dial })).updateWindow attempt.window
      (fun window => { window with vacant := false })
def abandoned (a : Nat) : Script :=
  match s.window with
  | none => s
  | some w =>
    s.updateWindow w (fun window => if window.attempt = some a then { window with attempt := none } else window)
def failed (dial : Nat) : Script :=
  match (s.windowAttempt.bind s.attemptAt).filter (fun attempt => attempt.dial = some dial) with
  | none => s
  | some attempt =>
    s.updateWindow attempt.window (fun window => { window with attempt := none, vacant := window.victim.isSome })
def end' : Bool × Script := (s.window.isSome,{ s with window := none })
def verified (context : Option Nat) : Bool × Script :=
  match context.bind (fun a => (s.liveContext a).map (fun _ => a)) with
  | none => (false,s)
  | some a => (true,{ s.updateContext a (fun context => { context with spentAt := none }) with
      counters := { s.counters with verified := s.counters.verified + 1 } })
def reserved (now : Nat) : Bool :=
  s.live now && (s.window.bind s.windowAt).any (fun window => window.vacant && s.current now window.context)
def suppresses (now : Nat) (pubkey : String) : Bool :=
  s.live now && (s.window.bind s.windowAt).any (fun window => window.victim = some pubkey)
def snapshot (now : Nat) : Snapshot where
  candidates := s.candidates.length
  contexts := s.contexts.length
  requestedKeys := (s.contexts.values.map (fun a => ((s.contextAt a).map (·.keys.length)).getD 0)).sum
  replacementSpent := (s.contexts.values.filter s.spent).length
  opportunityActive := s.live now
  remainingMs := match s.window.bind s.windowAt with
    | some window => if s.live now then min windowMs (window.expiresAt - now) else 0
    | none => 0
  vacancyReserved := s.reserved now
  counters := s.counters
def clear : Script := { s with window := none, contexts := .empty, candidates := .empty }
end Script

end RelaySwarm.Neighbours
