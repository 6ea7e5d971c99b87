import RelaySwarm.JsonBytes
import RelaySwarm.Recent

/-!
A session of a swarm on the relays. It announces its presence, sends signals that only their
recipient reads, and hands on what others announce and send to it. What it encrypts with is
derived once for a peer and remembered for a while.
-/
namespace RelaySwarm.Sessions
open JsonText (Text Value lit write parse field utf8Bytes)

def version : ℚ := 3
def maxPresenceBytes : Nat := 16 * 1024
def maxSignalCiphertextBytes : Nat := 64 * 1024
def maxSignalPlaintextBytes : Nat := 8 * 1024
def maxTicketBytes : Nat := 2 * 1024
def futureTolerance : Int := 30
def clockSamples : Nat := 64
def conversationKeys : Nat := 256
def maxSafe : Nat := 9007199254740991

/-! ### What is read of texts and values -/

def byteLength (text : Text) : Nat := (utf8Bytes text).length
def digit (unit : Nat) : Bool := 48 ≤ unit && unit ≤ 57
def lower (unit : Nat) : Bool := 97 ≤ unit && unit ≤ 122
def upper (unit : Nat) : Bool := 65 ≤ unit && unit ≤ 90
def hex64 (text : Text) : Bool := text.length = 64 && text.all (fun unit => digit unit || 97 ≤ unit && unit ≤ 102)
def validToken : Text → Bool
  | [] => false
  | first :: rest => (lower first || digit first) && rest.length ≤ 31 && rest.all (fun unit => lower unit || digit unit || unit = 45)
def validRequestId (text : Text) : Bool :=
  8 ≤ text.length && text.length ≤ 64 &&
    text.all (fun unit => lower unit || upper unit || digit unit || unit = 95 || unit = 45)
def validTicket (text : Text) : Bool := text ≠ [] && byteLength text ≤ maxTicketBytes
def validObjectFraming (value : ℚ) : Bool := value.den = 1 && 1 ≤ value && value ≤ 15

mutual
/-- A value as a text, which a pattern is tried on. -/
def coerce : Value → Text
  | .null => lit "null"
  | .bool true => lit "true"
  | .bool false => lit "false"
  | .number value => JsonText.writeNumber value
  | .infinity negative => if negative then lit "-Infinity" else lit "Infinity"
  | .string text => text
  | .array items => JsonText.commas (coerceItems items)
  | .object _ => lit "[object Object]"
def coerceItems : List Value → List Text
  | [] => []
  | .null :: rest => [] :: coerceItems rest
  | item :: rest => coerce item :: coerceItems rest
end
def asToken : Option Value → Option Text
  | some (.string text) => if validToken text then some text else none
  | _ => none
def asRequestId : Option Value → Option Text
  | some (.string text) => if validRequestId text then some text else none
  | _ => none
def asFields : Option Value → Option (List (Text × Value))
  | some (.object fields) => some fields
  | _ => none
def isVersion : Option Value → Bool
  | some (.number value) => value = version
  | _ => false
def parseObject (text : Text) : Option (List (Text × Value)) := asFields (parse text)

/-! ### What is sent and received -/

structure Event where
  pubkey : Text
  kind : Nat
  createdAt : ℚ
  tags : List (List Text)
  content : Text
def kindPresence : Nat := 24170
def kindSignal : Nat := 24171
def swarmTag : Text := lit "x"

def eventTagValues (event : Event) (name : Text) : List Text :=
  event.tags.filterMap (fun tag =>
    match tag with
    | first :: value :: _ => if first = name then some value else none
    | _ => none)
def uniqueTag (event : Event) (name : Text) : Option Text :=
  match eventTagValues event name with
  | [value] => some value
  | _ => none

/-- A way to reach a peer, as it is announced. -/
structure Capability where
  type : Text
  publicKey : Text
  obj : Option ℚ
structure Announcement where
  role : Text
  transports : List Capability
  haves : List Text
  isOpen : Option Bool
  ticket : Option Text
/-- A way to reach a peer, as it is received: the key only reads as one. -/
structure Reached where
  type : Text
  publicKey : Value
  obj : Option ℚ
structure Presence where
  pubkey : Text
  role : Text
  transports : List Reached
  haves : List Value
  isOpen : Option Bool
  ticket : Option Text
structure Signal where
  pubkey : Text
  type : Text
  transport : Text
  requestId : Text
  payload : List (Text × Value)

inductive Output where
  | published (event : Event)
  | replayed (event : Event)
  | presence (presence : Presence)
  | signal (signal : Signal)
  | error (message : String)

/-- What encrypts for a pair of peers. Encrypting draws a nonce, and where no key is derived
    it says why. -/
structure Nip44 (S K : Type) where
  conversationKey : S → Text → Option K
  refusal : S → Text → String
  encrypt : Nat → Text → K → Text
  decrypt : Text → K → Option Text

structure Clock where
  aheadRejected : Nat
  staleRejected : Nat
  maxAheadSeconds : Nat
  signalAges : List Int
structure Session (S K : Type) where
  swarmId : Text
  secretKey : S
  pubkey : Text
  maxEventAgeSeconds : Int
  started : Bool
  lastPresence : Option Event
  keys : List (Text × K)
  keyOwner : Option S
  clock : Clock

section
variable {S K : Type} [DecidableEq S] (nip44 : Nip44 S K)

namespace Session

def create (swarmId : Text) (secretKey : S) (publicKey : S → Text) (maxEventAgeSeconds : Int) : Session S K :=
  ⟨swarmId,secretKey,publicKey secretKey,maxEventAgeSeconds,false,none,[],none,⟨0,0,0,[]⟩⟩
/-- The key for a peer is remembered, for the secret it was derived with. -/
def conversationKey (s : Session S K) (pubkey : Text) : Option K × Session S K :=
  let kept := if s.keyOwner = some s.secretKey then s.keys else []
  let recalled := Recent.remember conversationKeys (nip44.conversationKey s.secretKey) kept pubkey
  (recalled.1,{ s with keys := recalled.2, keyOwner := some s.secretKey })
/-- The key for a peer is derived each time, and whom it was derived for is noted. -/
def derivedKey (s : Session S K) (pubkey : Text) : Option K × Session S K :=
  let used := if s.keyOwner = some s.secretKey then s.keys else []
  match nip44.conversationKey s.secretKey pubkey with
  | none => (none,{ s with keys := used, keyOwner := some s.secretKey })
  | some key => (some key,{ s with keys := used ++ [(pubkey,key)], keyOwner := some s.secretKey })

end Session

/-- The text of an announcement: no hash of an object twice. -/
def presenceValue (a : Announcement) : Value :=
  .object ([(lit "v",.number version),(lit "role",.string a.role),
    (lit "transports",.array (a.transports.map (fun transport => .object ([(lit "type",.string transport.type),
      (lit "publicKey",.string transport.publicKey)] ++ (transport.obj.map
        (fun obj => (lit "obj",.number obj))).toList)))),
    (lit "have",.array (a.haves.eraseDups.map .string))] ++
    (a.isOpen.map (fun value => (lit "open",.bool value))).toList ++
      (a.ticket.map (fun ticket => (lit "ticket",.string ticket))).toList)
def signalValue (type transport requestId : Text) (payload : List (Text × Value)) : Value :=
  .object [(lit "v",.number version),(lit "type",.string type),(lit "transport",.string transport),
    (lit "requestId",.string requestId),(lit "payload",.object payload)]

namespace Session
variable (keyOf : Session S K → Text → Option K × Session S K) (publicKey : S → Text)

def announcePresence (s : Session S K) (a : Announcement) (now : Int) (connected : Bool) : Session S K × List Output :=
  if a.ticket.any (fun ticket => !validTicket ticket) then (s,[.error "Invalid presence ticket."])
  else if validToken a.role = false then (s,[.error "Invalid presence role."])
  else if 8 < a.transports.length then (s,[.error "Invalid transport capability list."])
  else if 32 < a.haves.length ∨ a.haves.any (fun hash => !hex64 hash) = true
    then (s,[.error "Invalid object hash list."])
  else if a.transports.any (fun transport => !validToken transport.type || !hex64 transport.publicKey ||
      transport.obj.any (fun obj => !validObjectFraming obj)) then (s,[.error "Invalid transport capability."])
  else if maxPresenceBytes < byteLength (write (presenceValue a)) then (s,[.error "Presence payload is too large."])
  else
    let event : Event := ⟨publicKey s.secretKey,kindPresence,now,[[swarmTag,s.swarmId]],write (presenceValue a)⟩
    if connected then ({ s with lastPresence := some event },[.published event])
      else (s,[.error "RelayPool has no connected relay."])
def sendSignal (s : Session S K) (toPubkey type transport requestId : Text) (payload : List (Text × Value))
    (nonce : Nat) (now : Int)
    (connected : Bool) : Session S K × List Output :=
  if hex64 toPubkey = false then (s,[.error "Invalid signal recipient."])
  else if validToken type = false ∨ validToken transport = false ∨ validRequestId requestId = false then
    (s,[.error "Invalid signal envelope."])
  else
    let plaintext := write (signalValue type transport requestId payload)
    if maxSignalPlaintextBytes < byteLength plaintext then (s,[.error "Signal payload is too large."])
    else
      let keyed := keyOf s toPubkey
      match keyed.1 with
      | none => (keyed.2,[.error (nip44.refusal s.secretKey toPubkey)])
      | some key =>
        if connected then (keyed.2,[.published
          ⟨publicKey s.secretKey,kindSignal,now,[[swarmTag,s.swarmId],[lit "p",toPubkey]],
            nip44.encrypt nonce plaintext key⟩])
        else (keyed.2,[.error "RelayPool has no connected relay."])

def reached : Value → Option Reached
  | .object fields =>
    match asToken (field fields (lit "type")),field fields (lit "publicKey") with
    | some type,some publicKey =>
      if hex64 (coerce publicKey) then
        some ⟨type,publicKey,match field fields (lit "obj") with
          | some (.number obj) => if validObjectFraming obj then some obj else none
          | _ => none⟩
      else none
    | _,_ => none
  | _ => none
def receivePresence (event : Event) : Option Presence :=
  if maxPresenceBytes < byteLength event.content ∨ eventTagValues event (lit "p") ≠ [] then none
  else
    match parseObject event.content with
    | none => none
    | some fields =>
      match asToken (field fields (lit "role")),field fields (lit "transports"),field fields (lit "have") with
      | some role,some (.array transports),some (.array haves) =>
        if isVersion (field fields (lit "v")) = false ∨ 8 < transports.length ∨ 32 < haves.length ∨
            haves.any (fun hash => !hex64 (coerce hash)) = true then none
        else
          (transports.mapM reached).map (fun transports => ⟨event.pubkey,role,transports,haves,
            match field fields (lit "open") with
            | some (.bool value) => some value
            | _ => none,
            match field fields (lit "ticket") with
            | some (.string ticket) => if validTicket ticket then some ticket else none
            | _ => none⟩)
      | _,_,_ => none
/-- A signal that decrypts and is valid tells how old it came. -/
def receiveSignal (s : Session S K) (event : Event) (now : Int) : Session S K × List Output :=
  if maxSignalCiphertextBytes < byteLength event.content ∨ uniqueTag event (lit "p") ≠ some s.pubkey then (s,[])
  else
    let keyed := keyOf s event.pubkey
    match keyed.1.bind (fun key => nip44.decrypt event.content key) with
    | none => (keyed.2,[])
    | some plaintext =>
      if maxSignalPlaintextBytes < byteLength plaintext then (keyed.2,[])
      else
        match parseObject plaintext with
        | none => (keyed.2,[])
        | some fields =>
          match asToken (field fields (lit "type")),asToken (field fields (lit "transport")),
              asRequestId (field fields (lit "requestId")),asFields (field fields (lit "payload")) with
          | some type,some transport,some requestId,some payload =>
            if isVersion (field fields (lit "v")) then
              let ages :=
                if clockSamples ≤ s.clock.signalAges.length then s.clock.signalAges.tail else s.clock.signalAges
              ({ keyed.2 with clock := { s.clock with signalAges := ages ++ [now - event.createdAt.num] } },
                [.signal ⟨event.pubkey,type,transport,requestId,payload⟩])
            else (keyed.2,[])
          | _,_,_,_ => (keyed.2,[])
def receive (s : Session S K) (event : Event) (now : Int) : Session S K × List Output :=
  if s.started = false ∨ event.pubkey = s.pubkey ∨ (event.kind ≠ kindPresence ∧ event.kind ≠ kindSignal) then (s,[])
  else if event.createdAt.den ≠ 1 ∨ maxSafe < event.createdAt.num.natAbs ∨
    uniqueTag event swarmTag ≠ some s.swarmId then (s,[])
  else
    let age := now - event.createdAt.num
    if age < -futureTolerance then
      ({ s with clock := { s.clock with
          aheadRejected := min maxSafe (s.clock.aheadRejected + 1)
          maxAheadSeconds := max s.clock.maxAheadSeconds (min maxSafe (-age).toNat) } },[])
    else if s.maxEventAgeSeconds < age then
      ({ s with clock := { s.clock with staleRejected := min maxSafe (s.clock.staleRejected + 1) } },[])
    else if event.kind = kindPresence then (s,((receivePresence event).map .presence).toList)
    else s.receiveSignal nip44 keyOf event now
/-- A relay that opens is told of the presence that was announced last, while it is current. -/
def relayOpens (s : Session S K) (now : Int) : Session S K × List Output :=
  match s.lastPresence with
  | none => (s,[])
  | some event =>
    if s.started = false then (s,[])
    else if now - event.createdAt.num < -futureTolerance ∨ s.maxEventAgeSeconds < now - event.createdAt.num then
      ({ s with lastPresence := none },[])
    else (s,[.replayed event])
def start (s : Session S K) (subscribes : Bool) : Session S K :=
  if s.started then s else if subscribes then { s with started := true } else { s with lastPresence := none }
def close (s : Session S K) : Session S K :=
  { s with lastPresence := none, keys := [], keyOwner := none, started := false }

end Session

inductive Call (S : Type) where
  | start (subscribes : Bool)
  | announce (a : Announcement) (now : Int) (connected : Bool)
  | send (toPubkey type transport requestId : Text) (payload : List (Text × Value)) (nonce : Nat) (now : Int)
    (connected : Bool)
  | receive (event : Event) (now : Int)
  | opens (now : Int)
  /-- The host gives it another secret key. -/
  | rekey (secretKey : S)
  | close

variable (keyOf : Session S K → Text → Option K × Session S K) (publicKey : S → Text)

def Session.step (s : Session S K) : Call S → Session S K × List Output
  | .start subscribes => (s.start subscribes,[])
  | .announce a now connected => s.announcePresence publicKey a now connected
  | .send toPubkey type transport requestId payload nonce now connected =>
    s.sendSignal nip44 keyOf publicKey toPubkey type transport requestId payload nonce now connected
  | .receive event now => s.receive nip44 keyOf event now
  | .opens now => s.relayOpens now
  | .rekey secretKey => ({ s with secretKey },[])
  | .close => (s.close,[])
/-- A session after some calls, and what came of them. -/
def Session.run (s : Session S K) (calls : List (Call S)) : Session S K × List Output :=
  calls.foldl (fun done call =>
    let next := done.1.step nip44 keyOf publicKey call
    (next.1,done.2 ++ next.2)) (s,[])

end
end RelaySwarm.Sessions
