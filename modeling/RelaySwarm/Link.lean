import RelaySwarm.IndexMap
import RelaySwarm.Json
import RelaySwarm.Pieces

/-!
One data channel between two viewers, as a state machine. A link asks for at most
one response at a time and serves the ones it is asked for in order; the chunks
between a `meta` and its `eof` belong to that one response. An abandoned response
is drained. A message that is sent is kept as its fields; the parser of the texts
that arrive is a parameter.
-/
namespace RelaySwarm.Links
open Script Pieces

def chunkBytes : Nat := 16384
/-- A response is handed to the channel only while at most this much is queued. -/
def highWaterBytes : Nat := 131072
def maxHaveKeys : Nat := 256
def maxControlUnits : Nat := 65536
def maxRenditionUnits : Nat := 2048
def maxRenditions : Nat := 8
def renditionStaleMs : Nat := 30000
def maxFetching : Nat := 24
def maxFetchingMs : Int := 2000

inductive CloseReason where
  | host | hostStop | admission | rotation | integrity | requestTimeout | requestAbort | nativeFailed | nativeClosed
  | nativeDisconnected | channelClose | channelError | protocol | sendError | serveError | uploadQueue | uploadDrainTimeout
deriving DecidableEq
def closeReasons : List (String × CloseReason) :=
  [("host",.host),("host-stop",.hostStop),("admission",.admission),("rotation",.rotation),("integrity",.integrity),
    ("request-timeout",.requestTimeout),("request-abort",.requestAbort),("native-failed",.nativeFailed),
    ("native-closed",.nativeClosed),("native-disconnected",.nativeDisconnected),("channel-close",.channelClose),
    ("channel-error",.channelError),("protocol",.protocol),("send-error",.sendError),("serve-error",.serveError),
    ("upload-queue",.uploadQueue),("upload-drain-timeout",.uploadDrainTimeout)]
/-- A reason by its name; an unknown one reads as `host`. -/
def closeReasonOf (reason : String) : CloseReason := ((closeReasons.find? (·.1 = reason)).map (·.2)).getD .host

inductive Outcome where
  | payload | none | timeout | abort | abandoned | closed | busy | sendError
deriving DecidableEq
/-- The logical result of one request, reported once. -/
structure RequestReport where
  id : Option Nat
  outcome : Outcome
  receivedBytes : Nat
  metadataReceived : Bool
  draining : Bool
  closeReason : Option CloseReason
deriving DecidableEq
/-- A control message, by its fields. -/
inductive Message where
  | keys (keys : List String)
  | change (add del : List String)
  | contribution (serving : Bool) (rendition : Option String)
  | fetching (key : String) (leaseMs : Nat)
  | want (id : Nat) (key : String) (range : Option PieceRange)
  | cancel (id : Nat)
  | metadata (id : Int) (size : Nat) (range : Option PieceRange)
  | eof (id : Int)
  | none (id : Int)
deriving DecidableEq
inductive LinkEvent where
  | sendText (message : Message)
  | sendBinary (chunk : List UInt8)
  | closed (reason : CloseReason)
  | report (report : RequestReport)
  /-- The request's bytes, or nothing, possibly before the response is drained. -/
  | resolved (id : Option Nat) (bytes : Option (List UInt8))
  | haveChanged (added : List String)
  | scheduleChanged
  | serveRequest (key : String)
  | serveRange (key : String) (range : PieceRange)
  | uploadCancelled (bytes : Nat)
  | progress (received size : Nat)
deriving DecidableEq

structure LinkConfig where
  maxSegmentBytes : Nat
  maxQueuedRequests : Nat
  drainTimeoutMs : Nat
  /-- An ordered, fully reliable channel: an abandoned response may be drained. -/
  reliable : Bool
def LinkConfig.maxChunks (config : LinkConfig) : Nat :=
  max ((config.maxSegmentBytes + chunkBytes - 1) / chunkBytes * 4) 1

structure Pending where
  id : Nat
  expected : Option Nat
  /-- The pieces asked for, echoed by the holder's `meta`. -/
  range : Option PieceRange
  size : Option Nat
  parts : List UInt8
  chunks : Nat
  received : Nat
  draining : Bool
  cancelled : Bool
  resolved : Bool
  reported : Bool
  /-- The close reason if the drain deadline passes. -/
  abandonReason : CloseReason
  deadline : Nat
  timer : Nat
structure Upload where
  id : Int
  key : String
  cancelled : Bool
  range : Option PieceRange
inductive Stage where
  | awaitingBytes
  | draining (bytes : List UInt8) (sent deadline timer : Nat)
structure Active where
  upload : Upload
  stage : Stage
structure Link where
  config : LinkConfig
  closed : Bool
  closeReason : Option CloseReason
  haves : IndexMap String Unit
  serving : Bool
  rendition : Option String
  contributionAt : Nat
  fetching : IndexMap String Nat
  renditions : IndexMap String Nat
  pending : Option Pending
  nextId : Nat
  queue : List Upload
  active : Option Active
  inFlight : Nat
  buffered : Nat
  timers : Nat
  openedAt : Nat
  lastServedAt : Nat
  lastDeliveredAt : Nat
  bytesIn : Nat
  bytesOut : Nat
  /-- The latest time an input carried. -/
  clock : Nat
  events : List LinkEvent
  /-- A channel that is not open sends nothing and cannot drain an abandoned response. -/
  channelOpen : Bool
  /-- Raised whenever what a shell mirrors may have changed. -/
  version : Nat

/-- A new link over an open channel. -/
def Link.new (config : LinkConfig) (now : Nat) : Link where
  config := config
  closed := false
  closeReason := .none
  haves := .empty
  serving := false
  rendition := .none
  contributionAt := 0
  fetching := .empty
  renditions := .empty
  pending := .none
  nextId := 1
  queue := []
  active := .none
  inFlight := 0
  buffered := 0
  timers := 0
  openedAt := now
  lastServedAt := 0
  lastDeliveredAt := 0
  bytesIn := 0
  bytesOut := 0
  clock := now
  events := []
  channelOpen := true
  version := 0

def Link.drainEvents (link : Link) : List LinkEvent × Link := (link.events,{ link with events := [] })
def Link.busy (link : Link) : Bool := link.pending.isSome
/-- Mid-transfer in either direction: never a candidate for rotation. -/
def Link.transferring (link : Link) : Bool := link.pending.isSome || 0 < link.inFlight

/-! ### Sending and settling -/

def Link.emit (link : Link) (event : LinkEvent) : Link := { link with events := link.events ++ [event] }
def Link.atTime (link : Link) (now : Nat) : Link := { link with clock := now }
/-- Whether a message is kept back: the link is closed, or its channel is not open. -/
def Link.silent (link : Link) : Bool := link.closed || !link.channelOpen
def Link.sendText (link : Link) (message : Message) : Link :=
  if link.silent then link else link.emit (.sendText message)
def Link.sendHave (link : Link) (keys : List String) : Link :=
  link.sendText (.keys (keys.drop (keys.length - maxHaveKeys)))
def Link.sendHaveChange (link : Link) (add del : List String) : Link :=
  if add.isEmpty && del.isEmpty then link else link.sendText (.change add del)
def Link.sendContribution (link : Link) (serving : Bool) (rendition : Option String) : Link :=
  link.sendText (.contribution serving rendition)
def Link.sendFetching (link : Link) (key : String) (leaseMs : Nat) : Link := link.sendText (.fetching key leaseMs)

def Link.reportOf (link : Link) (pending : Pending) (outcome : Outcome) : RequestReport :=
  ⟨some pending.id,outcome,pending.received,pending.size.isSome,pending.draining,link.closeReason⟩
/-- The events of a request that is settled. -/
def Link.settle (link : Link) (pending : Pending) (bytes : Option (List UInt8)) (outcome : Outcome)
    (reportNow : Bool) : List LinkEvent :=
  (if pending.resolved then [] else [.resolved (some pending.id) bytes]) ++
  (if pending.draining && !link.closed then [.scheduleChanged] else []) ++
  (if reportNow && !pending.reported then [.report (link.reportOf pending outcome)] else [])
/-- Settle the pending request. The outcome is payload or none, unless it is given. -/
def Link.finish (link : Link) (bytes : Option (List UInt8)) (outcome : Option Outcome) (reportNow : Bool) : Link :=
  match link.pending with
  | .none => link
  | some pending => { link with
      pending := .none
      lastDeliveredAt := if bytes.isSome then link.clock else link.lastDeliveredAt
      events := link.events ++
        link.settle pending bytes (outcome.getD (if bytes.isSome then .payload else .none)) reportNow }

/-! ### Serving -/

def Link.release (link : Link) : Link := { link with inFlight := link.inFlight - 1 }
def Link.vacate (link : Link) : Link := { link with active := .none }
/-- The bytes of a response between two offsets are handed to the channel. -/
def Link.sendBinary (link : Link) (bytes : List UInt8) (sent stop : Nat) : Link := { link with
  buffered := link.buffered + (stop - sent)
  events := link.events ++ [.sendBinary ((bytes.drop sent).take (stop - sent))] }
def serveEvent (upload : Upload) : LinkEvent :=
  match upload.range with
  | some range => .serveRange upload.key range
  | .none => .serveRequest upload.key
/-- Start queued responses in order until one waits for its bytes. -/
def startNextFrom : List Upload → Link → Link
  | [],link => { link with queue := [] }
  | upload :: rest,link =>
    if link.active.isSome then { link with queue := upload :: rest }
    else if upload.cancelled then
      startNextFrom rest ((link.emit (.uploadCancelled 0)).sendText (.none upload.id)).release
    else if link.closed then startNextFrom rest link.release
    else { link.emit (serveEvent upload) with queue := rest, active := some ⟨upload,.awaitingBytes⟩ }
def Link.startNext (link : Link) : Link := startNextFrom link.queue link
def Link.finishUpload (link : Link) : Link := link.release.startNext
/-- The end of a response, all of it sent or not. -/
def Link.endChunks (link : Link) (now : Nat) (upload : Upload) (bytes : List UInt8) (sent : Nat) : Link :=
  let link : Link := { link with bytesOut := link.bytesOut + sent, lastServedAt := now }
  let link := if sent < bytes.length then link.emit (.uploadCancelled (bytes.length - sent)) else link
  (link.sendText (.eof upload.id)).finishUpload
/-- The chunks from an offset on, while the channel takes them. Every chunk has a
    byte, so as many steps as there are bytes left reach the end. -/
def sendChunksFrom (now : Nat) (upload : Upload) (bytes : List UInt8) : Nat → Nat → Bool → Link → Link
  | 0,sent,_,link => link.endChunks now upload bytes sent
  | left + 1,sent,resumed,link =>
    if bytes.length ≤ sent then link.endChunks now upload bytes sent
    else if link.closed then link.finishUpload
    else if !resumed && highWaterBytes < link.buffered then { link with
      timers := link.timers + 1
      active := some ⟨upload,.draining bytes sent (now + link.config.drainTimeoutMs) (link.timers + 1)⟩ }
    else if upload.cancelled then link.endChunks now upload bytes sent
    else
      sendChunksFrom now upload bytes left (min (sent + chunkBytes) bytes.length) false
        (link.sendBinary bytes sent (min (sent + chunkBytes) bytes.length))
def Link.sendChunks (link : Link) (now : Nat) (upload : Upload) (bytes : List UInt8) (sent : Nat)
    (resumed : Bool) : Link :=
  sendChunksFrom now upload bytes (bytes.length - sent) sent resumed link

/-- The bytes of a response: the held object, or the asked range of it. A range the
    object does not have, or whose bytes have another length, is declined. -/
def responseBytes (config : LinkConfig) (range : Option PieceRange) (bytes : List UInt8)
    (rangeObjectSize : Option Nat) :
    Option (List UInt8) :=
  match rangeObjectSize,range with
  | some objectSize,some range =>
    if objectSize ≤ config.maxSegmentBytes then
      match rangeBytes objectSize range with
      | some (start,stop) => if stop - start = bytes.length then some bytes else .none
      | .none => .none
    else .none
  | some _,.none => .none
  | .none,some range => (rangeBytes bytes.length range).map (fun offsets => (bytes.take offsets.2).drop offsets.1)
  | .none,.none => some bytes
def Link.decline (link : Link) (upload : Upload) : Link := (link.sendText (.none upload.id)).finishUpload
/-- The response the link waited for. -/
def Link.respond (link : Link) (now : Nat) (upload : Upload) (bytes : Option (List UInt8))
    (rangeObjectSize : Option Nat) : Link :=
  match bytes.bind (fun bytes => responseBytes link.config upload.range bytes rangeObjectSize) with
  | .none => link.decline upload
  | some bytes =>
    if upload.cancelled then (link.emit (.uploadCancelled bytes.length)).decline upload
    else if link.silent then link.finishUpload
    else (link.sendText (.metadata upload.id bytes.length upload.range)).sendChunks now upload bytes 0 false
def Link.serveResponseInner (link : Link) (now : Nat) (bytes : Option (List UInt8))
    (rangeObjectSize : Option Nat) : Link :=
  match link.active with
  | some ⟨upload,.awaitingBytes⟩ => (link.atTime now).vacate.respond now upload bytes rangeObjectSize
  | _ => link.atTime now
/-- The shell's answer to the oldest request: the held object, or nothing. -/
def Link.serveResponse (link : Link) (now : Nat) (bytes : Option (List UInt8)) : Link :=
  link.serveResponseInner now bytes .none
/-- The shell's answer to a range with only its bytes. -/
def Link.serveRangeResponse (link : Link) (now objectSize : Nat) (bytes : List UInt8) : Link :=
  link.serveResponseInner now (some bytes) (some objectSize)
def Link.setChannelOpen (link : Link) (isOpen : Bool) : Link := { link with channelOpen := isOpen }
def Link.setReliable (link : Link) (reliable : Bool) : Link := { link with config := { link.config with reliable } }
def Link.observeBuffered (link : Link) (buffered : Nat) : Link := { link with buffered }
/-- The response that waits for the channel goes on. -/
def Link.resume (link : Link) (now : Nat) : Link :=
  match link.active with
  | some ⟨upload,.draining bytes sent _ _⟩ => link.vacate.sendChunks now upload bytes sent true
  | _ => link
/-- The channel's buffered amount fell to the low-water mark. -/
def Link.bufferedAmountLow (link : Link) (now buffered : Nat) : Link :=
  ((link.atTime now).observeBuffered buffered).resume now

/-! ### Closing and abandoning -/

/-- A response is paused until the channel drains. -/
def Link.uploadWaiting (link : Link) : Bool :=
  match link.active with
  | some ⟨_,.draining ..⟩ => true
  | _ => false
/-- A response waiting for the channel to drain stops with the channel. -/
def Link.stopUpload (link : Link) : Link :=
  if link.uploadWaiting then link.vacate.finishUpload else link
def Link.shut (link : Link) (reason : CloseReason) : Link := { link with
  closed := true, version := link.version + 1, closeReason := some reason, fetching := .empty, renditions := .empty }
def Link.close (link : Link) (reason : CloseReason) : Link :=
  if link.closed then link
  else
    let outcome := if reason = .sendError then .sendError else .closed
    (((link.shut reason).finish .none (some outcome) true).emit (.closed reason)).stopUpload
def abandonOutcome (reason : CloseReason) (abandoned : Bool) : Outcome :=
  if reason ≠ .requestAbort then .timeout else if abandoned then .abandoned else .abort
/-- The pending request is given up with the link, which cannot drain its response. -/
def Link.giveUp (link : Link) (reason : CloseReason) (pending : Pending) (outcome : Outcome) : Link :=
  let closed := (link.finish .none (some outcome) false).close reason
  if pending.reported then closed else closed.emit (.report (closed.reportOf pending outcome))
/-- A request whose response is dropped as it arrives, until a deadline. Only after
    the holder was asked to stop may its eof end early. -/
def Pending.drain (pending : Pending) (reason : CloseReason) (deadline timer : Nat) (cancelled : Bool) : Pending :=
  { pending with
    draining := true, parts := [], abandonReason := reason, resolved := true
    deadline, timer, reported := true, cancelled }
/-- The pending request is settled, and its response is drained. -/
def Link.drain (link : Link) (now : Nat) (reason : CloseReason) (pending : Pending) (outcome : Outcome) : Link :=
  let drained := pending.drain reason (now + link.config.drainTimeoutMs) (link.timers + 1) (!link.silent)
  let timed : Link := { link with timers := link.timers + 1, pending := some drained }
  ((timed.emit (.resolved (some pending.id) .none)).emit (.report (link.reportOf drained outcome))).sendText
    (.cancel pending.id)
def Link.abandon (link : Link) (now : Nat) (reason : CloseReason) (abandoned : Bool) : Link :=
  match link.pending with
  | .none =>
    if !(link.config.reliable && link.channelOpen) then link.close reason else { link with timers := link.timers + 1 }
  | some pending =>
    if !(link.config.reliable && link.channelOpen) then link.giveUp reason pending (abandonOutcome reason abandoned)
    else link.drain now reason pending (abandonOutcome reason abandoned)

/-! ### Requests -/

/-- A request that is not made: the link is closed, or has one pending. -/
def Link.refuse (link : Link) : Link :=
  let outcome := if link.closed then .closed else .busy
  (link.emit (.resolved .none .none)).emit (.report ⟨.none,outcome,0,false,false,link.closeReason⟩)
/-- The link with a new request, its `want` not yet sent. -/
def Link.asking (link : Link) (now timeoutMs : Nat) (expectedSize : Option Nat) (range : Option PieceRange) : Link :=
  { link with
    clock := now, nextId := link.nextId + 1, timers := link.timers + 1
    pending := some {
      id := link.nextId, expected := expectedSize, range := range, size := .none, parts := [], chunks := 0
      received := 0, draining := false, cancelled := false, resolved := false, reported := false
      abandonReason := .requestTimeout, deadline := now + max timeoutMs 1, timer := link.timers + 1 } }
def Link.startRequest (link : Link) (now : Nat) (key : String) (timeoutMs : Nat) (expectedSize : Option Nat)
    (range : Option PieceRange) : Option Nat × Link :=
  if link.closed || link.pending.isSome then (.none,(link.atTime now).refuse)
  else
    let asked := link.asking now timeoutMs expectedSize range
    (some link.nextId,
      if asked.silent then asked.finish .none (some .sendError) true else asked.sendText (.want link.nextId key range))
/-- Request one object. -/
def Link.request (link : Link) (now : Nat) (key : String) (timeoutMs : Nat) (expectedSize : Option Nat) :
    Option Nat × Link :=
  link.startRequest now key timeoutMs expectedSize .none
/-- Request pieces of an object of a known size; nothing happens when the range does
    not fit the object. -/
def Link.requestRange (link : Link) (now : Nat) (key : String) (timeoutMs : Nat) (range : PieceRange)
    (objectSize : Nat) : Option Nat × Link :=
  match rangeBytes objectSize range with
  | .none => (.none,link)
  | some (start,stop) => link.startRequest now key timeoutMs (some (stop - start)) (some range)
def Link.abort (link : Link) (now id : Nat) (abandoned : Bool) : Link :=
  match link.pending with
  | some pending =>
    if pending.id = id && !pending.draining then (link.atTime now).abandon now .requestAbort abandoned
      else link.atTime now
  | .none => link.atTime now

/-- The request's timer, when it is due. -/
def Link.requestDue (link : Link) (now : Nat) : Option (Nat × Nat) :=
  match link.pending with
  | some pending => if pending.deadline ≤ now then some (pending.deadline,pending.timer) else .none
  | .none => .none
def Link.uploadDue (link : Link) (now : Nat) : Option (Nat × Nat) :=
  match link.active with
  | some ⟨_,.draining _ _ deadline timer⟩ => if deadline ≤ now then some (deadline,timer) else .none
  | _ => .none
def Link.requestTimer (link : Link) (now : Nat) : Link :=
  match link.pending with
  | some pending =>
    if pending.draining then (link.atTime now).close pending.abandonReason
    else (link.atTime now).abandon now .requestTimeout false
  | .none => link.atTime now
def Link.uploadTimer (link : Link) (now : Nat) : Link :=
  ((link.atTime now).vacate.close .uploadDrainTimeout).finishUpload
/-- The earliest timer that is due fires. -/
def Link.fire (link : Link) (now : Nat) : Link :=
  match link.requestDue now,link.uploadDue now with
  | some request,some upload =>
    if request.1 < upload.1 ∨ request.1 = upload.1 ∧ request.2 ≤ upload.2 then link.requestTimer request.1
    else link.uploadTimer upload.1
  | some request,.none => link.requestTimer request.1
  | .none,some upload => link.uploadTimer upload.1
  | .none,.none => link
/-- Every timer due by now, earliest first. A request is abandoned once and then
    closes the link, and so does an upload, so none is due after two. -/
def Link.tick (link : Link) (now : Nat) : Link := (link.fire now).fire now

/-! ### Frames from the remote -/

abbrev Fields := List (String × Json)
def validKeys (list : Option Json) : List String :=
  match list.bind Json.asArray with
  | .none => []
  | some items => ((items.filter isHex64).take maxHaveKeys).filterMap Json.asString
/-- A piece range: `some none` when absent, `none` when malformed. -/
def parseRange (value : Option Json) : Option (Option PieceRange) :=
  match value with
  | .none => some .none
  | some value =>
    match value.asArray with
    | some [start,stop] =>
      match safeInteger start,safeInteger stop with
      | some start,some stop =>
        if 0 ≤ start ∧ start < stop ∧ stop ≤ maxPieces then some (some ⟨start.toNat,stop.toNat⟩) else .none
      | _,_ => .none
    | _ => .none
/-- One response more is queued. -/
def Link.enqueue (link : Link) (upload : Upload) : Link := { link with
  inFlight := link.inFlight + 1
  queue := link.queue ++ [upload] }
def Link.onWant (link : Link) (message : Fields) : Link :=
  match (field message "id").bind safeInteger,(field message "k").filter isHex64 |>.bind Json.asString with
  | some id,some key =>
    match parseRange (field message "p") with
    | .none => link.close .protocol
    | some range =>
      if link.config.maxQueuedRequests ≤ link.inFlight then link.close .uploadQueue
      else (link.enqueue ⟨id,key,false,range⟩).startNext
  | _,_ => link
def Upload.cancel (upload : Upload) (id : Int) : Upload :=
  if upload.id = id then { upload with cancelled := true } else upload
/-- Every response with the id is cancelled. -/
def Link.cancelUploads (link : Link) (id : Int) : Link := { link with
  queue := link.queue.map (·.cancel id)
  active := link.active.map (fun active => { active with upload := active.upload.cancel id }) }
/-- A cancelled upload adds no more chunks; its eof can follow those already queued. -/
def Link.onCancel (link : Link) (now : Nat) (message : Fields) : Link :=
  match (field message "id").bind safeInteger with
  | .none => link
  | some id =>
    match (link.cancelUploads id).active with
    | some ⟨upload,.draining ..⟩ => if upload.id = id then (link.cancelUploads id).resume now else link.cancelUploads id
    | _ => link.cancelUploads id
def Link.hold (link : Link) (pending : Pending) : Link := { link with pending := some pending }
/-- What a message about a response is for the pending request: nothing when another
    one is named, and against the protocol when that one is draining. -/
def Link.namesPending (link : Link) (message : Fields) (handle : Pending → Link) : Link :=
  match link.pending with
  | .none => link
  | some pending =>
    if sameNumber (field message "id") pending.id then handle pending
    else if pending.draining then link.close .protocol else link
/-- Whether the `meta` breaks what was asked for: a range that is not echoed, or
    another size than the expected one. -/
def Pending.breaks (pending : Pending) (message : Fields) : Bool :=
  (pending.range.isSome && decide (parseRange (field message "p") ≠ some pending.range)) ||
    pending.expected.any (fun expected => !sameNumber (field message "size") expected)
def Link.onMeta (link : Link) (message : Fields) : Link :=
  link.namesPending message fun pending =>
    if pending.size.isSome then link.close .protocol
    else if pending.breaks message then link.close .protocol
    else match (field message "size").bind safeInteger with
      | some size =>
        if 1 ≤ size ∧ size ≤ link.config.maxSegmentBytes then
          link.hold { pending with size := some size.toNat }
        else link.close .protocol
      | .none => link.close .protocol
def Link.onEof (link : Link) (message : Fields) : Link :=
  link.namesPending message fun pending =>
    if pending.cancelled && pending.size.isSome then link.finish .none .none true
    else if pending.size ≠ some pending.received then link.close .protocol
    else if pending.draining then link.finish .none .none true
    else link.finish (some pending.parts) .none true
def Link.onNone (link : Link) (message : Fields) : Link :=
  link.namesPending message fun pending =>
    if pending.size.isSome then link.close .protocol else link.finish .none .none true
/-- The rendition a contribution names: `none` when it is malformed. -/
def contributionRendition (message : Fields) : Option (Option String) :=
  match field message "rendition" with
  | some .null => some .none
  | some (.string text) => if units text ≤ maxRenditionUnits then some (some text) else .none
  | _ => .none
/-- A rendition is seen; the stale ones go, and a new one needs room. -/
def seenRendition (renditions : IndexMap String Nat) (now : Nat) (rendition : String) : IndexMap String Nat :=
  let fresh := renditions.retain (fun _ seen => now - renditionStaleMs ≤ seen)
  if fresh.contains rendition || fresh.length < maxRenditions then fresh.insert rendition now else fresh
def Link.onContribution (link : Link) (now : Nat) (message : Fields) : Link :=
  match (field message "serving").bind Json.asBool,contributionRendition message with
  | some serving,some rendition =>
    { link with
      serving, rendition, contributionAt := now, version := link.version + 1
      fetching := if serving then link.fetching else .empty
      renditions :=
        if serving then rendition.elim link.renditions (seenRendition link.renditions now) else .empty }.emit
      .scheduleChanged
  | _,_ => link
/-- The leases after one is announced: the expired ones go, and a new one needs room. -/
def leased (fetching : IndexMap String Nat) (serving : Bool) (now : Nat) (key : String) (ms : Nat) :
    IndexMap String Nat :=
  let live := fetching.retain (fun _ expires => now < expires)
  if ms = 0 then live.erase key
  else if serving && (live.contains key || live.length < maxFetching) then live.insert key (now + ms)
  else live
def Link.onFetching (link : Link) (now : Nat) (message : Fields) : Link :=
  match (field message "k").filter isHex64 |>.bind Json.asString,(field message "ms").bind safeInteger with
  | some key,some ms =>
    if 0 ≤ ms ∧ ms ≤ maxFetchingMs then
      { link with
        fetching := leased link.fetching link.serving now key ms.toNat, version :=
          link.version + 1 }.emit .scheduleChanged
    else link
  | _,_ => link
/-- Keys are added one by one while there is room; the held keys and the added ones. -/
def addKeys : List String → IndexMap String Unit → IndexMap String Unit × List String
  | [],held => (held,[])
  | key :: rest,held =>
    if maxHaveKeys ≤ held.length then (held,[])
    else
      let next := addKeys rest (held.insert key ())
      (next.1,key :: next.2)
/-- The keys the remote holds after a message, and those that were added. -/
def haveAfter (held : IndexMap String Unit) (message : Fields) : IndexMap String Unit × List String :=
  let whole := ((field message "keys").bind Json.asArray).isSome
  let held :=
    if whole then (validKeys (field message "keys")).foldl (fun held key => held.insert key ()) .empty else held
  let next := addKeys (validKeys (field message "add")) held
  ((validKeys (field message "del")).foldl (fun held key => held.erase key) next.1,
    (if whole then held.keys else []) ++ next.2)
def Link.onHave (link : Link) (message : Fields) : Link :=
  let next := haveAfter link.haves message
  let told : Link := { link with haves := next.1, version := link.version + 1 }
  if next.2.isEmpty then told else told.emit (.haveChanged next.2)

section
-- the parser of a text, which gives nothing when the text is not JSON
variable (parse : String → Option Json)

/-- One message from the remote, by its tag. -/
def Link.handleMessage (link : Link) (now : Nat) (message : Fields) : Link :=
  match (field message "t").bind Json.asString with
  | some "contribution" => link.onContribution now message
  | some "fetching" => link.onFetching now message
  | some "have" => link.onHave message
  | some "want" => link.onWant message
  | some "cancel" => link.onCancel now message
  | some "meta" => link.onMeta message
  | some "eof" => link.onEof message
  | some "none" => link.onNone message
  | _ => link
/-- One text frame from the remote. -/
def Link.handleText (link : Link) (now : Nat) (text : String) : Link :=
  if link.closed then link.atTime now
  else if maxControlUnits < units text then (link.atTime now).close .protocol
  else match parse text with
    | some (.object message) => (link.atTime now).handleMessage now message
    | some _ => link.atTime now
    | .none => (link.atTime now).close .protocol
/-- A pending request with one more chunk. The chunks of a drained one are dropped. -/
def Pending.receive (pending : Pending) (chunk : List UInt8) : Pending := { pending with
  chunks := pending.chunks + 1, received := pending.received + chunk.length
  parts := if pending.draining then pending.parts else pending.parts ++ chunk }
def Link.receive (link : Link) (pending : Pending) (chunk : List UInt8) : Link :=
  { link with bytesIn := link.bytesIn + chunk.length, pending := some (pending.receive chunk) }
/-- One binary frame from the remote. -/
def Link.handleBinary (link : Link) (now : Nat) (chunk : List UInt8) : Link :=
  if link.closed then link.atTime now
  else match link.pending with
    | .none => link.atTime now
    | some pending =>
      match pending.size with
      | .none => (link.atTime now).close .protocol
      | some size =>
        if chunk.isEmpty || chunkBytes < chunk.length || link.config.maxChunks ≤ pending.chunks then
          (link.atTime now).close .protocol
        else
          let next := (link.atTime now).receive pending chunk
          if size < pending.received + chunk.length then next.close .protocol
          else if pending.draining then next
          else next.emit (.progress (pending.received + chunk.length) size)

/-! ### Runs -/

/-- What the shell may do with a link. -/
inductive Input where
  | sendHave (keys : List String)
  | sendHaveChange (add del : List String)
  | sendContribution (serving : Bool) (rendition : Option String)
  | sendFetching (key : String) (leaseMs : Nat)
  | request (now : Nat) (key : String) (timeoutMs : Nat) (expectedSize : Option Nat)
  | requestRange (now : Nat) (key : String) (timeoutMs : Nat) (range : PieceRange) (objectSize : Nat)
  | abort (now id : Nat) (abandoned : Bool)
  | close (reason : String)
  | tick (now : Nat)
  | text (now : Nat) (text : String)
  | binary (now : Nat) (chunk : List UInt8)
  | serveResponse (now : Nat) (bytes : Option (List UInt8))
  | serveRangeResponse (now objectSize : Nat) (bytes : List UInt8)
  | bufferedAmountLow (now buffered : Nat)
  | observeBuffered (buffered : Nat)
  | setChannelOpen (isOpen : Bool)
  | setReliable (reliable : Bool)

def Link.step (link : Link) : Input → Link
  | .sendHave keys => link.sendHave keys
  | .sendHaveChange add del => link.sendHaveChange add del
  | .sendContribution serving rendition => link.sendContribution serving rendition
  | .sendFetching key leaseMs => link.sendFetching key leaseMs
  | .request now key timeoutMs expectedSize => (link.request now key timeoutMs expectedSize).2
  | .requestRange now key timeoutMs range objectSize => (link.requestRange now key timeoutMs range objectSize).2
  | .abort now id abandoned => link.abort now id abandoned
  | .close reason => link.close (closeReasonOf reason)
  | .tick now => link.tick now
  | .text now text => link.handleText parse now text
  | .binary now chunk => link.handleBinary now chunk
  | .serveResponse now bytes => link.serveResponse now bytes
  | .serveRangeResponse now objectSize bytes => link.serveRangeResponse now objectSize bytes
  | .bufferedAmountLow now buffered => link.bufferedAmountLow now buffered
  | .observeBuffered buffered => link.observeBuffered buffered
  | .setChannelOpen isOpen => link.setChannelOpen isOpen
  | .setReliable reliable => link.setReliable reliable
def Link.run (link : Link) (inputs : List Input) : Link := inputs.foldl (Link.step parse) link
def Link.emitted (link : Link) (input : Input) : List LinkEvent := (link.drainEvents.2.step parse input).drainEvents.1
end

end RelaySwarm.Links
