import RelaySwarm.LinkTimers
import RelaySwarm.LinkHave
import RelaySwarm.WireNumbers

/-!
The frame of a link that the core hands to the page: thirteen numbers, then the
link's events, each with a tag, a length and its payload. A resolved object is
written in place, behind its request's id and whether there is one. What the page
reads of a frame is what was written, and nothing is left (`readFrame_frame`).
-/
namespace RelaySwarm.LinkFrame
open Links Pieces JsonText Wire

/-! ### What the core writes -/

def Outcome.asStr : Outcome → String
  | .payload => "payload"
  | .none => "none"
  | .timeout => "timeout"
  | .abort => "abort"
  | .abandoned => "abandoned"
  | .closed => "closed"
  | .busy => "busy"
  | .sendError => "send-error"
def CloseReason.asStr (reason : CloseReason) : String := ((closeReasons.find? (·.2 = reason)).map (·.1)).getD "host"

/-- An event of a link, with its text as it is sent. -/
inductive Event where
  | sendText (text : String)
  | sendBinary (bytes : List UInt8)
  | closed (reason : CloseReason)
  | report (report : RequestReport)
  | resolved (id : Option Nat) (bytes : Option (List UInt8))
  | haveChanged (keys : List String)
  | scheduleChanged
  | serveRequest (key : String)
  | serveRange (key : String) (range : PieceRange)
  | uploadCancelled (bytes : Nat)
  | progress (received size : Nat)
deriving DecidableEq

def unitsOf (text : String) : Text := text.toList.flatMap (fun c => codePoint c.toNat)
def asBytes (text : String) : List UInt8 := text.toList.flatMap (fun c => pointBytes c.toNat)
def jsonBytes (value : Value) : List UInt8 := utf8Bytes (write value)
def doubles (values : List Double) : List UInt8 := values.flatMap (fun value => little 8 value.bits)
def opt (value : Option Nat) : Double := value.elim .nan asDouble
def flag (value : Bool) : Double := asDouble value.toNat

def reportValue (report : RequestReport) : Value :=
  .object [(lit "id",report.id.elim .null (.number ·)),(lit "outcome",.string (lit (Outcome.asStr report.outcome))),
    (lit "receivedBytes",.number report.receivedBytes),(lit "metadataReceived",.bool report.metadataReceived),
    (lit "draining",.bool report.draining),
    (lit "closeReason",report.closeReason.elim .null (fun reason => .string (lit (CloseReason.asStr reason))))]
def Event.tag : Event → Nat
  | .sendText _ => 1
  | .sendBinary _ => 2
  | .closed _ => 3
  | .report _ => 4
  | .resolved _ _ => 5
  | .haveChanged _ => 6
  | .scheduleChanged => 7
  | .serveRequest _ => 8
  | .uploadCancelled _ => 9
  | .progress _ _ => 10
  | .serveRange _ _ => 11
/-- The payload of an event; that of a resolved object is written in place. -/
def Event.payload : Event → List UInt8
  | .sendText text => asBytes text
  | .sendBinary bytes => bytes
  | .closed reason => asBytes (CloseReason.asStr reason)
  | .report settled => jsonBytes (reportValue settled)
  | .resolved id bytes => little 8 (opt id).bits ++ [.ofNat bytes.isSome.toNat] ++ bytes.getD []
  | .haveChanged keys => jsonBytes (.array (keys.map (fun key => .string (unitsOf key))))
  | .scheduleChanged => []
  | .serveRequest key => asBytes key
  | .serveRange key range => jsonBytes (.array [.string (unitsOf key),.number range.start,.number range.stop])
  | .uploadCancelled bytes => doubles [asDouble bytes]
  | .progress received size => doubles [asDouble received,asDouble size]
def pushEvent (tag : Nat) (payload : List UInt8) : List UInt8 := .ofNat tag :: little 4 payload.length ++ payload
/-- An event as it stands in a frame. -/
def Event.bytes (event : Event) : List UInt8 :=
  match event with
  | .resolved id bytes =>
    let body := bytes.getD []
    .ofNat 5 :: little 4 (9 + body.length) ++ little 8 (opt id).bits ++ [.ofNat bytes.isSome.toNat] ++ body
  | event => pushEvent event.tag event.payload

/-- What is written of a link in front of its events. -/
structure Header where
  version : Nat
  closed : Bool
  busy : Bool
  transferring : Bool
  outboundInFlight : Nat
  bytesIn : Nat
  bytesOut : Nat
  openedAt : Nat
  lastServedAt : Nat
  lastDeliveredAt : Nat
  nextDeadline : Option Nat
  request : Option Nat
  uploadWaiting : Bool
def Header.doubles (header : Header) : List Double :=
  [asDouble header.version,flag header.closed,flag header.busy,flag header.transferring,
    asDouble header.outboundInFlight,
    asDouble header.bytesIn,asDouble header.bytesOut,asDouble header.openedAt,asDouble header.lastServedAt,
    asDouble header.lastDeliveredAt,opt header.nextDeadline,opt header.request,flag header.uploadWaiting]
def frame (header : Header) (events : List Event) : List UInt8 := doubles header.doubles ++ events.flatMap Event.bytes

/-- The header of a link, and the request that a call made. -/
def headerOf (link : Link) (request : Option Nat) : Header where
  version := link.version
  closed := link.closed
  busy := link.busy
  transferring := link.transferring
  outboundInFlight := link.inFlight
  bytesIn := link.bytesIn
  bytesOut := link.bytesOut
  openedAt := link.openedAt
  lastServedAt := link.lastServedAt
  lastDeliveredAt := link.lastDeliveredAt
  nextDeadline := link.nextDeadline
  request := request
  uploadWaiting := link.uploadWaiting
def eventOf : LinkEvent → Event
  | .sendText message => .sendText message.text
  | .sendBinary chunk => .sendBinary chunk
  | .closed reason => .closed reason
  | .report report => .report report
  | .resolved id bytes => .resolved id bytes
  | .haveChanged added => .haveChanged added
  | .scheduleChanged => .scheduleChanged
  | .serveRequest key => .serveRequest key
  | .serveRange key range => .serveRange key range
  | .uploadCancelled bytes => .uploadCancelled bytes
  | .progress received size => .progress received size
/-- The frame of a link, whose events are drained. -/
def linkFrame (link : Link) (request : Option Nat) : List UInt8 × Link :=
  let (events,link) := link.drainEvents
  (frame (headerOf link request) (events.map eventOf),link)

/-! ### What the page reads -/

/-- An event of a frame: with its payload, or a resolved object with its request's id. -/
inductive Received where
  | plain (tag : Nat) (payload : List UInt8)
  | resolved (id : Double) (payload : Option (List UInt8))
deriving DecidableEq

def slice (bytes : List UInt8) (start stop : Nat) : List UInt8 := (bytes.take stop).drop start
/-- A read beyond the end throws. -/
def getUint32 (bytes : List UInt8) (offset : Nat) : Option Nat :=
  if offset + 4 ≤ bytes.length then some (fromLittle (slice bytes offset (offset + 4))) else none
def getFloat64 (bytes : List UInt8) (offset : Nat) : Option Double :=
  if offset + 8 ≤ bytes.length then some (ofBits (fromLittle (slice bytes offset (offset + 8)))) else none

/-- The events from an offset on, and where they end; a frame cut short throws. -/
def readEvents (bytes : List UInt8) (offset : Nat) : Option (List Received × Nat) :=
  if inside : offset < bytes.length then
    match getUint32 bytes (offset + 1) with
    | none => none
    | some size =>
      let tag := bytes[offset].toNat
      let start := offset + 5
      let stop := start + size
      if tag ≠ 5 then (readEvents bytes stop).map (fun read => (.plain tag (slice bytes start stop) :: read.1,read.2))
      else if stop - start < 9 ∨ bytes.length < stop then none
      else
        match getFloat64 bytes start with
        | none => none
        | some id =>
          let payload := if bytes[start + 8]? = some 1 then some (slice bytes (start + 9) stop) else none
          (readEvents bytes stop).map (fun read => (.resolved id payload :: read.1,read.2))
  else some ([],offset)
termination_by bytes.length - offset
/-- The numbers of the header and the events of a frame, and where the events end. -/
def readFrame (bytes : List UInt8) : Option (List Double × List Received × Nat) := do
  let header ← (List.range 13).mapM (fun index => getFloat64 bytes (index * 8))
  let (events,stop) ← readEvents bytes 104
  pure (header,events,stop)
def readLinkFrame (bytes : List UInt8) : Option (List Double × List Received) :=
  (readFrame bytes).map (fun read => (read.1,read.2.1))

/-! ### Reading what was written -/

def number (value : Option Nat) : Double := value.elim .nan (fun n => .finite n)
/-- What the page has of an event. -/
def received : Event → Received
  | .resolved id bytes => .resolved (number id) bytes
  | event => .plain event.tag event.payload
/-- What the page has of a header. -/
def Header.values (header : Header) : List Double :=
  [some header.version,some header.closed.toNat,some header.busy.toNat,some header.transferring.toNat,
    some header.outboundInFlight,
    some header.bytesIn,some header.bytesOut,some header.openedAt,some header.lastServedAt,some header.lastDeliveredAt,
    header.nextDeadline,header.request,some header.uploadWaiting.toNat].map number

theorem slice_part (front part rest : List UInt8) :
    slice (front ++ (part ++ rest)) front.length (front.length + part.length) = part := by
  rw [slice,← List.append_assoc,List.take_left' (by rw [List.length_append]),List.drop_left]
theorem getUint32_part (front rest : List UInt8) {n : Nat} (small : n < 2 ^ 32) :
    getUint32 (front ++ (little 4 n ++ rest)) front.length = some n := by
  have part := slice_part front (little 4 n) rest
  rw [little_length] at part
  rw [getUint32,if_pos (by simp),part,fromLittle_little (by simpa using small)]
theorem getFloat64_part (front rest : List UInt8) {value : Double} (small : value.bits < 2 ^ 64) :
    getFloat64 (front ++ (little 8 value.bits ++ rest)) front.length = some (ofBits value.bits) := by
  have part := slice_part front (little 8 value.bits) rest
  rw [little_length] at part
  rw [getFloat64,if_pos (by simp),part,fromLittle_little (by simpa using small)]

/-- A double is read back as a number. -/
def Crosses (value : Double) (number : Double) : Prop := value.bits < 2 ^ 64 ∧ ofBits value.bits = number
theorem asDouble_crosses {n : Nat} (small : n < 2 ^ 53) : Crosses (asDouble n) (.finite n) :=
  ⟨whole_bits small,ofBits_whole small⟩
theorem opt_crosses {value : Option Nat} (small : ∀ n ∈ value, n < 2 ^ 53) : Crosses (opt value) (number value) := by
  cases value with
  | none => exact ⟨by decide +kernel,ofBits_nan⟩
  | some n => exact asDouble_crosses (small n rfl)
theorem flag_crosses (value : Bool) : Crosses (flag value) (number (some value.toNat)) := by
  apply asDouble_crosses
  cases value <;> decide

theorem resolved_length (id : Option Nat) (bytes : Option (List UInt8)) :
    (Event.resolved id bytes).payload.length = 9 + (bytes.getD []).length := by
  simp [Event.payload]
  omega
theorem bytes_eq (event : Event) : event.bytes = pushEvent event.tag event.payload := by
  cases event with
  | resolved id bytes =>
    rw [pushEvent,resolved_length]
    simp [Event.bytes,Event.payload,Event.tag]
  | _ => rfl
theorem tag_small (event : Event) : event.tag < 256 := by
  cases event <;> simp [Event.tag]
theorem tag_resolved {event : Event} (resolves : event.tag = 5) : ∃ id bytes, event = .resolved id bytes := by
  cases event <;> simp [Event.tag] at resolves
  exact ⟨_,_,rfl⟩
theorem received_plain {event : Event} (plain : event.tag ≠ 5) : received event = .plain event.tag event.payload := by
  cases event <;> first | rfl | exact absurd rfl plain
theorem bytes_length (event : Event) : event.bytes.length = 5 + event.payload.length := by
  rw [bytes_eq,pushEvent]
  simp
  omega

theorem readEvents_event (event : Event) (front rest : List UInt8) (short : event.payload.length < 2 ^ 32)
    (ids : ∀ id bytes, event = .resolved (some id) bytes → id < 2 ^ 53) :
    readEvents (front ++ (event.bytes ++ rest)) front.length =
      (readEvents (front ++ (event.bytes ++ rest)) (front.length + event.bytes.length)).map
        (fun read => (received event :: read.1,read.2)) := by
  have stop : front.length + event.bytes.length = front.length + 5 + event.payload.length := by
    rw [bytes_length]
    omega
  rw [stop]
  obtain ⟨all,whole⟩ : ∃ all, all = front ++ (event.bytes ++ rest) := ⟨_,rfl⟩
  rw [← whole]
  have tagged : all = (front ++ [.ofNat event.tag]) ++ (little 4 event.payload.length ++ (event.payload ++ rest)) := by
    rw [whole,bytes_eq,pushEvent]
    simp
  have loaded : all = (front ++ .ofNat event.tag :: little 4 event.payload.length) ++ (event.payload ++ rest) := by
    rw [tagged]
    simp
  have inside : front.length < all.length := by
    rw [tagged]
    simp
  have size : getUint32 all (front.length + 1) = some event.payload.length := by
    have read := getUint32_part (front ++ [.ofNat event.tag]) (event.payload ++ rest) short
    rw [← tagged] at read
    simpa using read
  have tag : all[front.length].toNat = event.tag := by
    have small := tag_small event
    simp only [tagged]
    simp [Nat.mod_eq_of_lt small]
  have part : slice all (front.length + 5) (front.length + 5 + event.payload.length) = event.payload := by
    have cut := slice_part (front ++ .ofNat event.tag :: little 4 event.payload.length) event.payload rest
    rw [← loaded] at cut
    simpa using cut
  rw [readEvents,dif_pos inside,size]
  dsimp only
  rw [tag]
  by_cases resolves : event.tag = 5
  · rw [if_neg (not_not.mpr resolves)]
    obtain ⟨id,bytes,rfl⟩ := tag_resolved resolves
    have length := resolved_length id bytes
    have reads : all = (front ++ .ofNat 5 :: little 4 (9 + (bytes.getD []).length)) ++
        (little 8 (opt id).bits ++ (.ofNat bytes.isSome.toNat :: bytes.getD [] ++ rest)) := by
      rw [loaded,length]
      simp [Event.payload,Event.tag]
    have crosses : Crosses (opt id) (number id) :=
      opt_crosses (fun n named => ids n bytes (by rw [Option.mem_def.mp named]))
    have named : getFloat64 all (front.length + 5) = some (number id) := by
      have read := getFloat64_part (front ++ .ofNat 5 :: little 4 (9 + (bytes.getD []).length))
        (.ofNat bytes.isSome.toNat :: bytes.getD [] ++ rest) crosses.1
      rw [← reads,crosses.2] at read
      simpa using read
    have present : all[front.length + 5 + 8]? = some (.ofNat bytes.isSome.toNat) := by
      have behind : all = (front ++ .ofNat 5 :: little 4 (9 + (bytes.getD []).length) ++ little 8 (opt id).bits) ++
          .ofNat bytes.isSome.toNat :: (bytes.getD [] ++ rest) := by
        rw [reads]
        simp
      rw [behind,List.getElem?_append_right (by simp)]
      simp
    have body : slice all (front.length + 5 + 9) (front.length + 5 + (9 + (bytes.getD []).length)) = bytes.getD [] := by
      obtain ⟨opening,layout⟩ : ∃ opening, opening = front ++ UInt8.ofNat 5 :: little 4 (9 + (bytes.getD []).length) ++
        little 8 (opt id).bits ++ [UInt8.ofNat bytes.isSome.toNat] := ⟨_,rfl⟩
      have behind : all = opening ++ (bytes.getD [] ++ rest) := by
        rw [reads,layout]
        simp
      have begins : opening.length = front.length + 5 + 9 := by
        rw [layout]
        simp
      have cut := slice_part opening (bytes.getD []) rest
      rw [← behind,begins] at cut
      rwa [show front.length + 5 + (9 + (bytes.getD []).length) =
        front.length + 5 + 9 + (bytes.getD []).length by omega]
    have whole' : ¬ all.length < front.length + 5 + (9 + (bytes.getD []).length) := by
      rw [reads]
      simp
      omega
    have payload : (if all[front.length + 5 + 8]? = some 1 then some (bytes.getD []) else none) = bytes := by
      rw [present]
      cases bytes with
      | none => rfl
      | some body => rfl
    rw [length,if_neg (by omega),named]
    dsimp only
    rw [body,payload]
    rfl
  · rw [if_pos resolves,part,received_plain resolves]

theorem readEvents_events (events : List Event) (front : List UInt8)
    (short : (events.flatMap Event.bytes).length < 2 ^ 32)
    (ids : ∀ id bytes, .resolved (some id) bytes ∈ events → id < 2 ^ 53) :
    readEvents (front ++ events.flatMap Event.bytes) front.length =
      some (events.map received,(front ++ events.flatMap Event.bytes).length) := by
  induction events generalizing front with
  | nil =>
    rw [readEvents,dif_neg (by simp)]
    simp
  | cons event rest ih =>
    rw [List.flatMap_cons,List.length_append,bytes_length] at short
    have own : ∀ id bytes, event = .resolved (some id) bytes → id < 2 ^ 53 := by
      rintro id bytes rfl
      exact ids id bytes List.mem_cons_self
    have behind :=
      ih (front ++ event.bytes) (by omega) (fun id bytes member => ids id bytes (List.mem_cons_of_mem _ member))
    rw [List.append_assoc,List.length_append] at behind
    rw [List.flatMap_cons,readEvents_event event front _ (by omega) own,behind]
    rfl

theorem doubles_cons (value : Double) (rest : List Double) :
    doubles (value :: rest) = little 8 value.bits ++ doubles rest := rfl
theorem doubles_length (values : List Double) : (doubles values).length = values.length * 8 := by
  induction values with
  | nil => rfl
  | cons value rest ih =>
    rw [doubles_cons,List.length_append,little_length,ih,List.length_cons]
    omega
theorem doubles_read {values numbers : List Double} (front rest : List UInt8)
    (cross : List.Forall₂ Crosses values numbers) {k : Nat} (begins : front.length = k * 8) :
    ((List.range' k values.length).mapM (fun index => getFloat64 (front ++ (doubles values ++ rest)) (index * 8))) =
      some numbers := by
  induction cross generalizing front k with
  | nil => rfl
  | @cons value number later others crosses _ ih =>
    have first : getFloat64 (front ++ (doubles (value :: later) ++ rest)) (k * 8) = some number := by
      rw [doubles_cons,List.append_assoc,← begins,getFloat64_part front _ crosses.1,crosses.2]
    have behind := ih (front ++ little 8 value.bits) (k := k + 1) (by rw [List.length_append,little_length]; omega)
    rw [List.append_assoc,← List.append_assoc (little 8 value.bits),← doubles_cons] at behind
    rw [List.length_cons,List.range'_succ,List.mapM_cons,first,behind]
    rfl

structure Header.Small (header : Header) : Prop where
  version : header.version < 2 ^ 53
  outboundInFlight : header.outboundInFlight < 2 ^ 53
  bytesIn : header.bytesIn < 2 ^ 53
  bytesOut : header.bytesOut < 2 ^ 53
  openedAt : header.openedAt < 2 ^ 53
  lastServedAt : header.lastServedAt < 2 ^ 53
  lastDeliveredAt : header.lastDeliveredAt < 2 ^ 53
  nextDeadline : ∀ n ∈ header.nextDeadline, n < 2 ^ 53
  request : ∀ n ∈ header.request, n < 2 ^ 53
theorem Header.Small.crosses {header : Header} (small : header.Small) :
    List.Forall₂ Crosses header.doubles header.values := by
  refine .cons (asDouble_crosses small.version) ?_
  refine .cons (flag_crosses _) ?_
  refine .cons (flag_crosses _) ?_
  refine .cons (flag_crosses _) ?_
  refine .cons (asDouble_crosses small.outboundInFlight) ?_
  refine .cons (asDouble_crosses small.bytesIn) ?_
  refine .cons (asDouble_crosses small.bytesOut) ?_
  refine .cons (asDouble_crosses small.openedAt) ?_
  refine .cons (asDouble_crosses small.lastServedAt) ?_
  refine .cons (asDouble_crosses small.lastDeliveredAt) ?_
  refine .cons (opt_crosses small.nextDeadline) ?_
  refine .cons (opt_crosses small.request) ?_
  exact .cons (flag_crosses _) .nil

theorem readFrame_frame {header : Header} {events : List Event} (small : header.Small)
    (ids : ∀ id bytes, .resolved (some id) bytes ∈ events → id < 2 ^ 53)
    (short : (frame header events).length < 2 ^ 31) :
    readFrame (frame header events) = some (header.values,events.map received,(frame header events).length) := by
  have length : (doubles header.doubles).length = 104 := doubles_length header.doubles
  have numbers := doubles_read [] (events.flatMap Event.bytes) small.crosses (k := 0) rfl
  rw [← List.range_eq_range'] at numbers
  have body := readEvents_events events (doubles header.doubles) (by rw [frame,List.length_append] at short; omega) ids
  rw [length] at body
  rw [readFrame,frame,body]
  rw [show header.doubles.length = 13 from rfl,List.nil_append] at numbers
  rw [numbers]
  rfl
end RelaySwarm.LinkFrame
