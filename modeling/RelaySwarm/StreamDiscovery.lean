import RelaySwarm.CommitmentScript
import RelaySwarm.KeepBest

/-!
How a page finds the streams of the authors its host trusts. Relays answer a query
with events in any order; of each stream the last update is kept, of all statuses,
and only then what is live and allowed becomes a descriptor. The library for events
and the URL class are parameters, and so is what interrupts a query.
-/
namespace RelaySwarm.StreamDiscovery
open JsonText Publisher Commitment

/-! ### The policy -/

/-- What is read of a URL here; one that throws is none. -/
structure Url where
  href : Text
  origin : Text
  protocol : Text
  username : Text
  password : Text
  hostname : Text
  hash : Text
structure Library where
  events : CommitmentScript.Library
  url : Text → Option Url

/-- A host's policy once it was checked; the time is in seconds. -/
structure Policy where
  streamAuthorisations : List (Text × Value)
  authors : List Text
  origins : List Text
  relays : List Text
  swarmId : Text
  iceServers : Value
  allowLoopback : Bool
  seconds : Int
  maxAgeSeconds : Int
  maxFutureSeconds : Int
  maxEventBytes : Nat
/-- The bounds of one query; the number of results is checked to be one at least. -/
structure Limits where
  maxEvents : Nat
  maxResults : Nat
  maxTotalBytes : Nat
  positive : 1 ≤ maxResults

inductive Failure where
  | discovery (message code : String)
  | typeError (message : String)
def oversize : Failure := .discovery "Discovery event exceeds the size limit." "EVENT_LIMIT"
def tooMany : Failure := .discovery "Discovery event count exceeds the limit." "EVENT_LIMIT"
def tooLong : Failure := .discovery "Discovery byte count exceeds the limit." "EVENT_LIMIT"

def loopback : List Text := [lit "localhost",lit "127.0.0.1",lit "[::1]"]
/-- White space, or a backslash. -/
def unsafeUnit (unit : Nat) : Bool :=
  unit = 92 || (9 ≤ unit && unit ≤ 13) || unit ∈ [32,160,0x1680,0x2028,0x2029,0x202F,0x205F,0x3000,0xFEFF]
    || (0x2000 ≤ unit && unit ≤ 0x200A)
def safeUrl (library : Library) (value : Text) (protocols : List Text) (allowLoopback : Bool)
    (insecureProtocol : Text) : Option Url :=
  if value.isEmpty || 2048 < value.length || value.any unsafeUnit then none
  else (library.url value).filter fun url =>
    url.username.isEmpty && url.password.isEmpty && url.hash.isEmpty && !url.hostname.isEmpty
      && (protocols.contains url.protocol || (allowLoopback && url.protocol =
        insecureProtocol && loopback.contains url.hostname))

/-! ### Events -/

/-- The fields of an event that are copied from what a relay sent; its kind is 30311. -/
structure Event where
  id : Text
  pubkey : Text
  createdAt : Int
  tags : List (List Text)
  content : Text
  sig : Text
deriving DecidableEq
def Event.value (event : Event) : Value :=
  .object [(lit "id",.string event.id),(lit "pubkey",.string event.pubkey),(lit "created_at",.number event.createdAt),
    (lit "kind",.number kindStreamAuthorisation),
      (lit "tags",.array (event.tags.map (fun tag => .array (tag.map .string)))),
    (lit "content",.string event.content),(lit "sig",.string event.sig)]
structure Wire where
  event : Event
  bytes : Nat

def single (event : Event) (name : String) (length : Nat) : Option (List Text) :=
  match event.tags.filter (fun tag => tag.head? = some (lit name)) with
  | [tag] => if tag.length = length then some tag else none
  | _ => none
def valueOf (event : Event) (name : String) : Option Text := (single event name 2).bind (fun tag => tag[1]?)

/-- The fields of a tag that are copied, with the characters so far; a field that is no text ends the copy. -/
def copyFields (maximum : Nat) : Nat → List Value → Except Failure (Option (Nat × List Text))
  | characters,[] => .ok (some (characters,[]))
  | characters,field :: rest =>
    match textOf field with
    | none => .ok none
    | some text =>
      let characters := characters + text.length + 3
      if maximum < characters then .error oversize
      else (copyFields maximum characters rest).map (·.map (fun copied => (copied.1,text :: copied.2)))
def copyTags (maximum : Nat) : Nat → List Value → Except Failure (Option (List (List Text)))
  | _,[] => .ok (some [])
  | characters,tag :: rest =>
    match itemsOf tag with
    | none => .ok none
    | some [] => .ok none
    | some fields =>
      if 128 < fields.length then .error oversize
      else match copyFields maximum characters fields with
        | .error failure => .error failure
        | .ok none => .ok none
        | .ok (some (characters,copy)) => (copyTags maximum characters rest).map (·.map (copy :: ·))
/-- The event that a value is, if it has the shape of one; one beyond the size limit is refused. -/
def wireEvent (value : Value) (maximum : Nat) : Except Failure (Option Wire) :=
  match (property value (lit "tags")).bind itemsOf,(property value (lit "content")).bind textOf with
  | some rows,some content =>
    if maximum < content.length ∨ 2048 < rows.length then .error oversize
    else
      let id := ((property value (lit "id")).bind textOf).filter (hexText 64)
      let pubkey := ((property value (lit "pubkey")).bind textOf).filter (hexText 64)
      let sig := ((property value (lit "sig")).bind textOf).filter (hexText 128)
      let createdAt := ((property value (lit "created_at")).bind safeInteger).filter (0 ≤ ·)
      match id,pubkey,sig,createdAt with
      | some id,some pubkey,some sig,some createdAt =>
        if !(property value (lit "kind")).any (strictEq · (.number kindStreamAuthorisation)) then .ok none
        else match copyTags maximum content.length rows with
          | .error failure => .error failure
          | .ok none => .ok none
          | .ok (some tags) =>
            let event : Event := { id,pubkey,createdAt,tags,content,sig }
            let bytes := (utf8Bytes (write event.value)).length
            if maximum < bytes then .error oversize else .ok (some ⟨event,bytes⟩)
      | _,_,_,_ => .ok none
  | _,_ => .ok none

section
variable (library : Library)

def verifyEvent (event : Event) : Bool := library.events.nostr.verifyEvent (CommitmentScript.copyOf event.value)
/-- The address of the stream that a signed event of a trusted author updates. -/
def trustedAddress (event : Event) (policy : Policy) : Option Text :=
  match valueOf event "d" with
  | none => none
  | some identifier =>
    if !policy.authors.contains event.pubkey || identifier.isEmpty || 256 < identifier.length
        || policy.seconds + policy.maxFutureSeconds < event.createdAt || !verifyEvent library event then none
    else some (write (.array [.string event.pubkey,.string identifier]))

/-- A time in a tag: it may be missing, or none that can be read. -/
inductive Stamp where
  | absent
  | nan
  | instant (seconds : Int)
def timestampTag (event : Event) (name : String) : Stamp :=
  match event.tags.filter (fun tag => tag.head? = some (lit name)) with
  | [] => .absent
  | [[_,value]] =>
    if value.isEmpty || !value.all digit then .nan
    else match safeInteger (ofRational (ofDigits value)) with
      | some seconds => .instant seconds
      | none => .nan
  | _ => .nan
/-- The tag is missing, or a time that is not refused. -/
def Stamp.passes (stamp : Stamp) (refused : Int → Bool) : Bool :=
  match stamp with
  | .absent => true
  | .nan => false
  | .instant seconds => !refused seconds

/-- The settings for a player. -/
structure Config where
  swarmId : Text
  relays : List Text
  iceServers : Value
  streamEvent : Value
  serve : Bool
structure Descriptor where
  manifestUrl : Text
  streamEvent : Value
  liveEvent : Event
  swarmId : Text
  relays : List Text
  iceServers : Value
  config : Config

/-- The authorisation that an event goes by: itself, or the one of the host that it names. -/
def authorisationOf (event : Event) (policy : Policy) (starts expiration : Stamp) : Option Value :=
  match event.tags.filter (fun tag => tag.head? = some (lit "relayswarm-authorisation")) with
  | [] => if policy.streamAuthorisations.isEmpty then some event.value else none
  | [[_,id]] =>
    if !hexText 64 id then none
    else ((policy.streamAuthorisations.find? (·.1 = id)).map (·.2)).filter fun authorisation =>
      (property authorisation (lit "pubkey")).bind textOf = some event.pubkey
        && CommitmentScript.validStreamAuthorisation library.events authorisation
        && valueOf event "d" = ((property authorisation (lit "id")).bind textOf).map (lit "live-" ++ ·)
        && valueOf event "relayswarm-swarm" = some policy.swarmId
        && (match starts with
          | .absent => false
          | _ => true)
        && (match expiration with
          | .absent => false
          | .nan => true
          | .instant seconds => seconds ≤ event.createdAt + 300)
  | _ => none
/-- What a page plays of an event that is live, allowed and in time. -/
def resolveEvent (event : Event) (policy : Policy) : Option Descriptor := do
  guard ((trustedAddress library event policy).isSome && policy.seconds - policy.maxAgeSeconds ≤ event.createdAt
    && valueOf event "status" = some (lit "live")
    && (single event "relayswarm" 3).map (fun tag => (tag.drop 1).intersperse [58] |>.flatten) =
      some (lit "redistribute:1"))
  let starts := timestampTag event "starts"
  let ends := timestampTag event "ends"
  let expiration := timestampTag event "expiration"
  guard (starts.passes (policy.seconds + policy.maxFutureSeconds < ·) && ends.passes (· ≤ policy.seconds)
    && expiration.passes (· ≤ policy.seconds))
  let streaming ← (valueOf event "streaming").filter (!·.isEmpty)
  let manifest ← safeUrl library streaming [lit "https:"] policy.allowLoopback (lit "http:")
  guard (policy.origins.contains manifest.origin)
  let streamEvent ← authorisationOf library event policy starts expiration
  pure {
    manifestUrl := manifest.href
    streamEvent := streamEvent
    liveEvent := event
    swarmId := policy.swarmId
    relays := policy.relays
    iceServers := policy.iceServers
    config := {
      swarmId := policy.swarmId
      relays := policy.relays
      iceServers := policy.iceServers
      streamEvent := streamEvent
      serve := false } }
end

/-! ### The query -/

def compare (a b : Event) : Int :=
  if b.createdAt - a.createdAt ≠ 0 then b.createdAt - a.createdAt
  else if a.id < b.id then -1 else if b.id < a.id then 1 else 0

/-- What the host's query gives: a list, or events one after the other. -/
inductive Source where
  | array (items : List Value)
  | iterable (items : List Value)
  | other
def Source.items : Source → List Value
  | .array items => items
  | .iterable items => items
  | .other => []

/-- Where the query looks whether it was aborted or its time is up. -/
inductive Point where
  | queried
  | before (item : Nat)
  | after (item : Nat)
  | gathered
  | resolving (result : Nat)
/-- What interrupts a query, and where. -/
abbrev Interruption := Point → Option Failure
def look (interrupted : Interruption) (point : Point) : Except Failure Unit :=
  match interrupted point with
  | some failure => .error failure
  | none => .ok ()

structure Gathered where
  latest : IndexMap Text Event
  count : Nat
  totalBytes : Nat

section
variable (library : Library)

/-- The last update of each stream is kept. -/
def keepLatest (policy : Policy) (latest : IndexMap Text Event) (event : Event) : IndexMap Text Event :=
  match trustedAddress library event policy with
  | none => latest
  | some address =>
    match latest.get? address with
    | none => latest.insert address event
    | some previous => if compare event previous < 0 then latest.insert address event else latest
/-- The events are read one after the other. -/
def gather (policy : Policy) (limits : Limits) (interrupted : Interruption) :
    Gathered → List Value → Except Failure Gathered
  | gathered,[] => do
    look interrupted (.before gathered.count)
    look interrupted (.after gathered.count)
    pure gathered
  | gathered,value :: rest => do
    look interrupted (.before gathered.count)
    look interrupted (.after gathered.count)
    let count := gathered.count + 1
    if limits.maxEvents < count then throw tooMany
    match ← wireEvent value policy.maxEventBytes with
    | none => gather policy limits interrupted { gathered with count := count } rest
    | some wire =>
      let totalBytes := gathered.totalBytes + wire.bytes
      if limits.maxTotalBytes < totalBytes then throw tooLong
      gather policy limits interrupted ⟨keepLatest library policy gathered.latest wire.event,count,totalBytes⟩ rest
/-- The descriptors of events in their order, up to a number of them. -/
def resolveAll (policy : Policy) (maxResults : Nat) (interrupted : Interruption) :
    Nat → List Event → Except Failure (List Descriptor)
  | _,[] => .ok []
  | found,event :: rest => do
    look interrupted (.resolving found)
    match resolveEvent library event policy with
    | none => if found = maxResults then pure [] else resolveAll policy maxResults interrupted found rest
    | some resolved =>
      if found + 1 = maxResults then pure [resolved]
      else do pure (resolved :: (← resolveAll policy maxResults interrupted (found + 1) rest))
/-- The streams that trusted authors offer now; `later` is the time once all events are read. -/
def discoverTrustedStreams (policy : Policy) (limits : Limits) (interrupted : Interruption) (later : Int)
    (source : Source) :
    Except Failure (List Descriptor) := do
  look interrupted .queried
  match source with
  | .other => throw (.typeError "Discovery query must return an array or async iterable.")
  | .array items => if limits.maxEvents < items.length then throw tooMany
  | .iterable _ => pure ()
  let gathered ← gather library policy limits interrupted ⟨.empty,0,0⟩ source.items
  look interrupted .gathered
  if later < 0 ∨ maxSafeInteger < later then throw (.typeError "Invalid discovery time.")
  let events := gathered.latest.values.insertionSort (fun a b => compare a b ≤ 0)
  resolveAll library { policy with seconds := later } limits.maxResults interrupted 0 events
end
end RelaySwarm.StreamDiscovery
