import RelaySwarm.JsonText

/-!
The transfer of one object over a byte stream, in frames of a header and a payload. A
stream comes in chunks that are cut anywhere. `decodeFrames` joins what it has with
each chunk and takes the frames off; `receiveObject` keeps the parts until as many bytes
are there as the frame needs. `serveAuthorizedObject` writes the object asked for.
-/
namespace RelaySwarm.ObjectTransfer
open JsonText

abbrev Bytes := List UInt8

def version : UInt8 := 1
def headerBytes : Nat := 8
def maxFrameBytes : Nat := 64 * 1024
def defaultMaxObjectBytes : Nat := 256 * 1024 * 1024

namespace FrameType
def request : Nat := 1
def metadata : Nat := 2
def chunk : Nat := 3
def eof : Nat := 4
def error : Nat := 5
end FrameType

inductive Fault where
  | invalidHeader | invalidType | tooLarge | truncated
  | notAnObject | invalidRequestId | invalidDigest | invalidSize
  | peerRejected | unexpectedMetadata | otherMetadata | noMetadata | chunkBudget | objectSize
  | incomplete | dataBehind | wrongDigest | unexpectedFrame | closed
  | oneRequest | closedEarly | notAuthorised | unresolved | otherObject
  deriving DecidableEq
def Fault.text : Fault → String
  | invalidHeader => "Invalid transfer frame header."
  | invalidType => "Invalid transfer frame type."
  | tooLarge => "Transfer frame is too large."
  | truncated => "Truncated transfer frame."
  | notAnObject => "Expected a transfer object."
  | invalidRequestId => "Invalid transfer request identifier."
  | invalidDigest => "Invalid transfer digest."
  | invalidSize => "Invalid transfer size."
  | peerRejected => "Native peer rejected the transfer."
  | unexpectedMetadata => "Unexpected transfer metadata."
  | otherMetadata => "Native peer returned unexpected object metadata."
  | noMetadata => "Object bytes arrived before metadata."
  | chunkBudget => "Native peer exceeded the object chunk budget."
  | objectSize => "Native peer exceeded the expected object size."
  | incomplete => "Native peer ended an incomplete transfer."
  | dataBehind => "Native peer sent data after the end of the transfer."
  | wrongDigest => "Native peer returned bytes with the wrong SHA-256 digest."
  | unexpectedFrame => "Unexpected transfer frame."
  | closed => "Native peer closed before completing the transfer."
  | oneRequest => "Expected exactly one transfer request."
  | closedEarly => "Native peer closed before requesting an object."
  | notAuthorised => "Transfer request does not match its Nostr authorization."
  | unresolved => "The resolver failed."
  | otherObject => "The local object does not match its authorized identity."

/-! ### Frames -/

structure Frame where
  type : Nat
  payload : Bytes
  deriving DecidableEq

def writeUInt32 (n : Nat) : Bytes := [.ofNat (n / 16777216),.ofNat (n / 65536),.ofNat (n / 256),.ofNat n]
def readUInt32 (bytes : Bytes) : Nat :=
  ((bytes.getD 0 0).toNat * 256 + (bytes.getD 1 0).toNat) * 65536 + (bytes.getD 2 0).toNat * 256 +
    (bytes.getD 3 0).toNat
/-- A header and a payload. -/
def frameBytes (type : Nat) (payload : Bytes) : Bytes :=
  82 :: 83 :: version :: .ofNat type :: writeUInt32 payload.length ++ payload

/-- What the bytes at hand begin with: a frame, or less than the bytes it needs. -/
inductive Read where
  | short (needed : Nat)
  | frame (frame : Frame) (rest : Bytes)
/-- The check of a header that every reader of frames makes. -/
def readFrame (pending : Bytes) : Except Fault Read :=
  if pending.length < headerBytes then .ok (.short headerBytes)
  else if pending.getD 0 0 ≠ 82 ∨ pending.getD 1 0 ≠ 83 ∨ pending.getD 2 0 ≠ version then .error .invalidHeader
  else
    let type := (pending.getD 3 0).toNat
    if type < FrameType.request ∨ FrameType.error < type then .error .invalidType
    else
      let length := readUInt32 (pending.drop 4)
      if maxFrameBytes < length then .error .tooLarge
      else if pending.length < headerBytes + length then .ok (.short (headerBytes + length))
      else .ok (.frame ⟨type,(pending.drop headerBytes).take length⟩ (pending.drop (headerBytes + length)))
theorem readFrame_shorter {pending rest : Bytes} {frame : Frame} (read : readFrame pending = .ok (.frame frame rest)) :
    rest.length < pending.length := by
  unfold readFrame at read
  split at read
  · cases read
  split at read
  · cases read
  dsimp only at read
  split at read
  · cases read
  split at read
  · cases read
  split at read
  · cases read
  rename_i short _ _ _ _
  cases read
  rw [List.length_drop]
  unfold headerBytes at short ⊢
  omega

/-- The frames of the bytes at hand, and the bytes of none. -/
def takeFrames (pending : Bytes) : List Frame × Except Fault Bytes :=
  match _read : readFrame pending with
  | .error fault => ([],.error fault)
  | .ok (.short _) => ([],.ok pending)
  | .ok (.frame frame rest) =>
    let later := takeFrames rest
    (frame :: later.1,later.2)
termination_by pending.length
decreasing_by exact readFrame_shorter _read
/-- The loop of `decodeFrames` over chunks: the frames it yields, and the error that ends it. -/
def decodeChunks (pending : Bytes) : List Bytes → List Frame × Option Fault
  | [] => ([],if pending = [] then none else some .truncated)
  | chunk :: rest =>
    match takeFrames (pending ++ chunk) with
    | (frames,.error fault) => (frames,some fault)
    | (frames,.ok pending) =>
      let later := decodeChunks pending rest
      (frames ++ later.1,later.2)
def decodeFrames (stream : List Bytes) : List Frame × Option Fault := decodeChunks [] stream
/-- The one frame a server waits for. -/
def readFirstFrame (pending : Bytes) : List Bytes → Except Fault Frame
  | [] => .error .closedEarly
  | chunk :: rest =>
    match readFrame (pending ++ chunk) with
    | .error fault => .error fault
    | .ok (.short _) => readFirstFrame (pending ++ chunk) rest
    | .ok (.frame frame behind) => if behind = [] then .ok frame else .error .oneRequest

/-! ### Identities -/

structure Identity where
  requestId : Text
  sha256 : Text
  size : Nat

def idUnit (unit : Nat) : Bool :=
  digit unit || (65 ≤ unit && unit ≤ 90) || (97 ≤ unit && unit ≤ 122) || unit = 95 || unit = 45
def validRequestId (text : Text) : Bool := 8 ≤ text.length && text.length ≤ 64 && text.all idUnit
def hex64 (text : Text) : Bool := text.length = 64 && text.all (fun unit => digit unit || (97 ≤ unit && unit ≤ 102))
/-- The checks of an identity that is given. -/
def validateIdentity (identity : Identity) (maxObjectBytes : Nat) : Except Fault Unit :=
  if validRequestId identity.requestId = false then .error .invalidRequestId
  else if hex64 identity.sha256 = false then .error .invalidDigest
  else if 9007199254740991 < identity.size ∨ maxObjectBytes < identity.size then .error .invalidSize
  else .ok ()

/-- The text a pattern of 64 digits is matched with: an array of one item is its item. -/
def patternText : Value → Option Text
  | .string text => some text
  | .array [item] => patternText item
  | _ => none
def fieldText (fields : List (Text × Value)) (key : Text) : Option Text :=
  match field fields key with
  | some (.string text) => some text
  | _ => none
def fieldNumber (fields : List (Text × Value)) (key : Text) : Option ℚ :=
  match field fields key with
  | some (.number value) => some value
  | _ => none
/-- The same checks of an identity that is read. -/
def validateFields (fields : List (Text × Value)) (maxObjectBytes : Nat) : Except Fault Unit :=
  if (fieldText fields (lit "requestId")).any validRequestId = false then .error .invalidRequestId
  else if ((field fields (lit "sha256")).bind patternText).any hex64 = false then .error .invalidDigest
  else
    match fieldNumber fields (lit "size") with
    | none => .error .invalidSize
    | some size =>
      if size.den ≠ 1 ∨ size.num < 0 ∨ 9007199254740991 < size.num ∨
        (maxObjectBytes : ℤ) < size.num then .error .invalidSize
      else .ok ()
def parseJsonObject (payload : Bytes) : Except Fault (List (Text × Value)) :=
  match parse (utf8 payload) with
  | some (.object fields) => .ok fields
  | _ => .error .notAnObject

/-! ### The receiver -/

section
variable (sha256Hex : Bytes → Text) (allocUnsafe : (size : Nat) → Vector UInt8 size)
variable (expected : Identity) (maxObjectBytes : Nat)

/-- The object as far as it has come. -/
structure Assembly where
  metadataSeen : Bool
  receivedBytes : Nat
  chunkCount : Nat
  object : Option Bytes
  /-- The bytes hashed so far. -/
  hash : Bytes
def Assembly.new : Assembly := ⟨false,0,0,none,[]⟩
def maxChunks (size : Nat) : Nat := max 1 ((size + (maxFrameBytes - 1)) / maxFrameBytes * 4)
/-- A buffer after bytes were copied into it. -/
def copyInto (object payload : Bytes) (offset : Nat) : Bytes :=
  object.take offset ++ payload ++ object.drop (offset + payload.length)

/-- What a frame leads to: the object, or more of it. -/
inductive Handled where
  | waits (assembly : Assembly)
  | resolves (object : Bytes)
/-- One frame, with this many bytes behind it. -/
def onFrame (a : Assembly) (frame : Frame) (behind : Nat) : Except Fault Handled :=
  if frame.type = FrameType.error then .error .peerRejected
  else if frame.type = FrameType.metadata then
    if a.metadataSeen ∨ a.receivedBytes ≠ 0 then .error .unexpectedMetadata
    else
      match parseJsonObject frame.payload with
      | .error fault => .error fault
      | .ok metadata =>
        if fieldText metadata (lit "sha256") ≠ some expected.sha256 ∨
            fieldNumber metadata (lit "size") ≠ some (expected.size : ℚ) then .error .otherMetadata
        else .ok (.waits { a with metadataSeen := true, object := some (allocUnsafe expected.size).toList })
  else if frame.type = FrameType.chunk then
    if a.metadataSeen = false then .error .noMetadata
    else if frame.payload = [] ∨ maxChunks expected.size ≤ a.chunkCount then .error .chunkBudget
    else if expected.size < a.receivedBytes + frame.payload.length ∨
        maxObjectBytes < a.receivedBytes + frame.payload.length then .error .objectSize
    else .ok (.waits { a with
      chunkCount := a.chunkCount + 1
      object := a.object.map (fun object => copyInto object frame.payload a.receivedBytes)
      hash := a.hash ++ frame.payload
      receivedBytes := a.receivedBytes + frame.payload.length })
  else if frame.type = FrameType.eof then
    if frame.payload ≠ [] ∨ a.metadataSeen = false ∨ a.receivedBytes ≠ expected.size then .error .incomplete
    else if behind ≠ 0 then .error .dataBehind
    else if sha256Hex a.hash ≠ expected.sha256 then .error .wrongDigest
    else .ok (.resolves (a.object.getD []))
  else .error .unexpectedFrame

/-- The bytes not yet parsed, kept as parts until as many are there as are needed. -/
structure Receiver where
  parts : List Bytes
  partBytes : Nat
  needed : Nat
  assembly : Assembly
def Receiver.new : Receiver := ⟨[],0,headerBytes,.new⟩
inductive Progress where
  | runs (receiver : Receiver)
  | rejects (fault : Fault)
  | resolves (object : Bytes)
/-- The loop of `onData` over the bytes at hand: the frames it takes, and where it stops. -/
def handleFrames (a : Assembly) (pending : Bytes) : List Frame × Progress :=
  match _read : readFrame pending with
  | .error fault => ([],.rejects fault)
  | .ok (.short needed) => ([],.runs ⟨if pending = [] then [] else [pending],pending.length,needed,a⟩)
  | .ok (.frame frame rest) =>
    match onFrame sha256Hex allocUnsafe expected maxObjectBytes a frame rest.length with
    | .error fault => ([frame],.rejects fault)
    | .ok (.resolves object) => ([frame],.resolves object)
    | .ok (.waits a) =>
      let later := handleFrames a rest
      (frame :: later.1,later.2)
termination_by pending.length
decreasing_by exact readFrame_shorter _read
/-- One chunk: nothing is decoded before the bytes needed are there. -/
def onData (r : Receiver) (chunk : Bytes) : List Frame × Progress :=
  let parts := r.parts ++ [chunk]
  let partBytes := r.partBytes + chunk.length
  if partBytes < r.needed then ([],.runs { r with parts, partBytes })
  else handleFrames sha256Hex allocUnsafe expected maxObjectBytes r.assembly parts.flatten
/-- The chunks of a stream and its end: the frames taken, and how it is settled. -/
def receiveChunks (r : Receiver) : List Bytes → List Frame × Except Fault Bytes
  | [] => ([],.error .closed)
  | chunk :: rest =>
    match onData sha256Hex allocUnsafe expected maxObjectBytes r chunk with
    | (frames,.rejects fault) => (frames,.error fault)
    | (frames,.resolves object) => (frames,.ok object)
    | (frames,.runs r) =>
      let later := receiveChunks r rest
      (frames ++ later.1,later.2)
def receiveObject (stream : List Bytes) : List Frame × Except Fault Bytes :=
  receiveChunks sha256Hex allocUnsafe expected maxObjectBytes .new stream
/-- A request, and what its answer gives. -/
def requestObject (stream : List Bytes) : Except Fault Bytes :=
  match validateIdentity expected maxObjectBytes with
  | .error fault => .error fault
  | .ok () => (receiveObject sha256Hex allocUnsafe expected maxObjectBytes stream).2
end

/-! ### The server -/

/-- The bytes in pieces of the largest payload. -/
def payloads (bytes : Bytes) : List Bytes :=
  (List.range ((bytes.length + (maxFrameBytes - 1)) / maxFrameBytes)).map (fun i =>
    (bytes.drop (i * maxFrameBytes)).take maxFrameBytes)
def metadataOf (identity : Identity) : Value :=
  .object [(lit "sha256",.string identity.sha256),(lit "size",.number identity.size)]
/-- The frames of an object. -/
def objectStream (authorization : Identity) (bytes : Bytes) : Bytes :=
  frameBytes FrameType.metadata (utf8Bytes (write (metadataOf authorization))) ++
    (payloads bytes).flatMap (frameBytes FrameType.chunk) ++ frameBytes FrameType.eof []
def rejection : Bytes :=
  frameBytes FrameType.error (utf8Bytes (write (.object [(lit "code",.string (lit "TRANSFER_REJECTED"))])))
/-- The request that is read and the object it is answered with. -/
def answerRequest (sha256Hex : Bytes → Text) (authorization : Identity) (resolveObject : Identity → Option Bytes)
    (maxObjectBytes : Nat) (frame : Frame) : Except Fault Bytes :=
  if frame.type ≠ FrameType.request then .error .oneRequest
  else
    match parseJsonObject frame.payload with
    | .error fault => .error fault
    | .ok request =>
      match validateFields request maxObjectBytes with
      | .error fault => .error fault
      | .ok () =>
        if fieldText request (lit "requestId") ≠ some authorization.requestId ∨
            fieldText request (lit "sha256") ≠ some authorization.sha256 ∨
            fieldNumber request (lit "size") ≠ some (authorization.size : ℚ) then .error .notAuthorised
        else
          match resolveObject authorization with
          | none => .error .unresolved
          | some bytes =>
            if bytes.length ≠ authorization.size ∨ sha256Hex bytes ≠ authorization.sha256 then .error .otherObject
            else .ok bytes
/-- The bytes written, and how the call ends. A stream on which no request was read is
    destroyed. -/
def serveAuthorizedObject (sha256Hex : Bytes → Text) (authorization : Identity)
    (resolveObject : Identity → Option Bytes)
    (maxObjectBytes : Nat) (stream : List Bytes) : Bytes × Except Fault Bytes :=
  match validateIdentity authorization maxObjectBytes with
  | .error fault => ([],.error fault)
  | .ok () =>
    match readFirstFrame [] stream with
    | .error fault => ([],.error fault)
    | .ok frame =>
      match answerRequest sha256Hex authorization resolveObject maxObjectBytes frame with
      | .error fault => (rejection,.error fault)
      | .ok bytes => (objectStream authorization bytes,.ok bytes)

end RelaySwarm.ObjectTransfer
