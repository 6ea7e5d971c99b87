import RelaySwarm.ObjectTransfer
import RelaySwarm.JsonRoundTrip

/-!
Chunks do not matter. A frame that is not whole stays so until the bytes it needs are
there (`readFrame_short`), so the receiver takes the frames of the whole stream, however
it is cut (`receiveObject_settles`). It resolves with the object of a stream of metadata,
chunks and an end, and of no other (`resolves_iff`), as the server writes it
(`objectStream_carries`).
-/
namespace RelaySwarm.ObjectTransfer
open JsonText

/-! ### One frame -/

variable {fault : Fault} {needed behind : Nat} {a : Assembly}
theorem readUInt32_write {n : Nat} (small : n < 4294967296) (rest : Bytes) :
    readUInt32 (writeUInt32 n ++ rest) = n := by
  simp only [readUInt32,writeUInt32,List.cons_append,List.getD_cons_zero,List.getD_cons_succ,UInt8.toNat_ofNat']
  omega
theorem writeUInt32_read (a b c d : UInt8) (rest : Bytes) :
    writeUInt32 (readUInt32 (a :: b :: c :: d :: rest)) = [a,b,c,d] := by
  have ha := a.toNat_lt
  have hb := b.toNat_lt
  have hc := c.toNat_lt
  have hd := d.toNat_lt
  simp only [writeUInt32,readUInt32,List.getD_cons_zero,List.getD_cons_succ,List.cons.injEq,and_true]
  refine ⟨?_,?_,?_,?_⟩ <;>
  · apply UInt8.toNat_inj.mp
    rw [UInt8.toNat_ofNat']
    omega
/-- A frame as it can be written. -/
structure Frame.Proper (frame : Frame) : Prop where
  low : FrameType.request ≤ frame.type
  high : frame.type ≤ FrameType.error
  fits : frame.payload.length ≤ maxFrameBytes
def Frame.bytes (frame : Frame) : Bytes := frameBytes frame.type frame.payload

theorem proper_metadata {payload : Bytes} (fits : payload.length ≤ maxFrameBytes) :
    Frame.Proper ⟨FrameType.metadata,payload⟩ :=
  ⟨(by decide : FrameType.request ≤ FrameType.metadata),(by decide : FrameType.metadata ≤ FrameType.error),fits⟩
theorem proper_chunk {payload : Bytes} (fits : payload.length ≤ maxFrameBytes) :
    Frame.Proper ⟨FrameType.chunk,payload⟩ :=
  ⟨(by decide : FrameType.request ≤ FrameType.chunk),(by decide : FrameType.chunk ≤ FrameType.error),fits⟩
theorem proper_eof : Frame.Proper ⟨FrameType.eof,[]⟩ := ⟨by decide,by decide,by decide⟩
theorem frameBytes_length (type : Nat) (payload : Bytes) :
    (frameBytes type payload).length = headerBytes + payload.length := by
  simp [frameBytes,writeUInt32,headerBytes]
  omega
theorem readFrame_bytes {frame : Frame} (proper : frame.Proper) (rest : Bytes) :
    readFrame (frame.bytes ++ rest) = .ok (.frame frame rest) := by
  obtain ⟨type,payload⟩ := frame
  obtain ⟨low,high,fits⟩ := proper
  have enough : ¬ (frameBytes type payload ++ rest).length < headerBytes := by
    rw [List.length_append,frameBytes_length]
    omega
  have typed : (UInt8.ofNat type).toNat = type := by
    rw [UInt8.toNat_ofNat']
    simp only [FrameType.error] at high
    omega
  have length : readUInt32 ((frameBytes type payload ++ rest).drop 4) = payload.length := by
    simp only [frameBytes,List.cons_append,List.append_assoc,List.drop_succ_cons,List.drop_zero]
    refine readUInt32_write ?_ _
    simp only [maxFrameBytes] at fits
    omega
  have taken : ((frameBytes type payload ++ rest).drop headerBytes).take payload.length = payload := by
    simp [frameBytes,writeUInt32,headerBytes]
  have left : (frameBytes type payload ++ rest).drop (headerBytes + payload.length) = rest := by
    rw [← frameBytes_length type payload,List.drop_left]
  show readFrame (frameBytes type payload ++ rest) = _
  dsimp only at low high fits
  unfold readFrame
  rw [if_neg enough,if_neg (by simp [frameBytes])]
  have third : (frameBytes type payload ++ rest).getD 3 0 = .ofNat type := by simp [frameBytes]
  simp only [third,typed,length,taken,left]
  rw [if_neg (by omega),if_neg (by omega),if_neg (by rw [List.length_append,frameBytes_length]; omega)]
/-- Bytes that hold a header. -/
theorem header_split : ∀ {pending : Bytes}, ¬ pending.length < headerBytes →
    ∃ m s v t a b c d body, pending = m :: s :: v :: t :: a :: b :: c :: d :: body
  | m :: s :: v :: t :: a :: b :: c :: d :: body,_ => ⟨m,s,v,t,a,b,c,d,body,rfl⟩
  | [],short => (short (by simp [headerBytes])).elim
  | [_],short => (short (by simp [headerBytes])).elim
  | [_,_],short => (short (by simp [headerBytes])).elim
  | [_,_,_],short => (short (by simp [headerBytes])).elim
  | [_,_,_,_],short => (short (by simp [headerBytes])).elim
  | [_,_,_,_,_],short => (short (by simp [headerBytes])).elim
  | [_,_,_,_,_,_],short => (short (by simp [headerBytes])).elim
  | [_,_,_,_,_,_,_],short => (short (by simp [headerBytes])).elim
theorem readFrame_inv {pending rest : Bytes} {frame : Frame} (read : readFrame pending = .ok (.frame frame rest)) :
    frame.Proper ∧ pending = frame.bytes ++ rest := by
  unfold readFrame at read
  split at read
  · cases read
  split at read
  · cases read
  dsimp only at read
  split at read
  · cases read
  split at read
  · cases read
  split at read
  · cases read
  rename_i header magic type length short
  cases read
  obtain ⟨m,s,v,t,a,b,c,d,body,rfl⟩ := header_split header
  simp only [List.getD_cons_zero,List.getD_cons_succ,not_or,not_not,not_lt] at magic type
  obtain ⟨rfl,rfl,rfl⟩ := magic
  simp only [List.drop_succ_cons,List.drop_zero,not_lt,headerBytes,List.length_cons] at length short ⊢
  refine ⟨⟨type.1,type.2,(List.length_take_le _ _).trans length⟩,?_⟩
  have whole : (List.take (readUInt32 (a :: b :: c :: d :: body)) body).length =
      readUInt32 (a :: b :: c :: d :: body) := by
    rw [List.length_take]
    omega
  rw [show 8 + readUInt32 (a :: b :: c :: d :: body) = readUInt32 (a :: b :: c :: d :: body) + 8 by omega]
  simp only [Frame.bytes,frameBytes,whole,writeUInt32_read,List.cons_append,List.nil_append,List.drop_succ_cons,
    List.getD_cons_zero,List.getD_cons_succ,List.take_append_drop,UInt8.ofNat_toNat]

/-! ### What comes later changes nothing -/

theorem getD_append {bytes : Bytes} {i : Nat} (inside : i < bytes.length) (more : Bytes) :
    (bytes ++ more).getD i 0 = bytes.getD i 0 := by
  simp [List.getD_eq_getElem?_getD,List.getElem?_append_left inside]
theorem readUInt32_append {bytes : Bytes} (enough : 4 ≤ bytes.length) (more : Bytes) :
    readUInt32 (bytes ++ more) = readUInt32 bytes := by
  simp only [readUInt32,getD_append (show 0 < bytes.length by omega),getD_append (show 1 < bytes.length by omega),
    getD_append (show 2 < bytes.length by omega),getD_append (show 3 < bytes.length by omega)]
theorem readFrame_frame {pending rest : Bytes} {frame : Frame} (read : readFrame pending = .ok (.frame frame rest))
    (more : Bytes) : readFrame (pending ++ more) = .ok (.frame frame (rest ++ more)) := by
  obtain ⟨proper,rfl⟩ := readFrame_inv read
  rw [List.append_assoc]
  exact readFrame_bytes proper _
/-- A header that is refused is refused with more behind it, and a frame that is short
    of what it needs stays so until it is there. -/
theorem readFrame_more (pending more : Bytes) :
    (∀ fault, readFrame pending = .error fault → readFrame (pending ++ more) = .error fault) ∧
    ∀ needed, readFrame pending = .ok (.short needed) → pending.length < needed ∧
      ((pending ++ more).length < needed → readFrame (pending ++ more) = .ok (.short needed)) := by
  by_cases header : pending.length < headerBytes
  · rw [readFrame,if_pos header]
    refine ⟨fun _ read => (by cases read),fun needed read => ?_⟩
    cases read
    exact ⟨header,fun short => by rw [readFrame,if_pos short]⟩
  · have enough : 8 ≤ pending.length := by
      unfold headerBytes at header
      omega
    have wide : ¬ (pending ++ more).length < headerBytes := by
      rw [List.length_append]
      omega
    have length : readUInt32 ((pending ++ more).drop 4) = readUInt32 (pending.drop 4) := by
      rw [List.drop_append_of_le_length (by omega)]
      exact readUInt32_append (by rw [List.length_drop]; omega) more
    unfold readFrame
    simp only [if_neg header,if_neg wide,getD_append (show 0 < pending.length by omega),
      getD_append (show 1 < pending.length by omega),getD_append (show 2 < pending.length by omega),
      getD_append (show 3 < pending.length by omega),length]
    split_ifs with magic type large short short' short'
    all_goals simp_all
theorem takeFrames_error {pending : Bytes} (read : readFrame pending = .error fault) :
    takeFrames pending = ([],.error fault) := by
  rw [takeFrames]
  split <;> simp_all
theorem takeFrames_short {pending : Bytes} (read : readFrame pending = .ok (.short needed)) :
    takeFrames pending = ([],.ok pending) := by
  rw [takeFrames]
  split <;> simp_all
theorem takeFrames_frame {pending rest : Bytes} {frame : Frame} (read : readFrame pending = .ok (.frame frame rest)) :
    takeFrames pending = (frame :: (takeFrames rest).1,(takeFrames rest).2) := by
  rw [takeFrames]
  split <;> simp_all

/-- The bytes behind the first end frame that decoding frame by frame comes to. -/
def behindEof (bytes : Bytes) : Option Bytes :=
  match _read : readFrame bytes with
  | .ok (.frame frame rest) => if frame.type = FrameType.eof then some rest else behindEof rest
  | _ => none
termination_by bytes.length
decreasing_by exact readFrame_shorter _read
/-- No byte follows the first end frame. -/
def Ended (bytes : Bytes) : Prop := ∀ rest, behindEof bytes = some rest → rest = []
theorem behindEof_frame {bytes rest : Bytes} {frame : Frame} (read : readFrame bytes = .ok (.frame frame rest)) :
    behindEof bytes = if frame.type = FrameType.eof then some rest else behindEof rest := by
  rw [behindEof]
  split <;> simp_all

section
variable (sha256Hex : Bytes → Text) (allocUnsafe : (size : Nat) → Vector UInt8 size)
variable (expected : Identity) (maxObjectBytes : Nat)

/-! ### The frames of the whole stream -/

/-- Frames handled one after another until one settles the transfer; what comes to no
    end is refused. -/
def settle (fault : Fault) : Assembly → List Frame → List Frame × Except Fault Bytes
  | _,[] => ([],.error fault)
  | a,frame :: rest =>
    match onFrame sha256Hex allocUnsafe expected maxObjectBytes a frame 0 with
    | .error fault => ([frame],.error fault)
    | .ok (.resolves object) => ([frame],.ok object)
    | .ok (.waits a) =>
      let later := settle fault a rest
      (frame :: later.1,later.2)
/-- The error of a stream that ends in this way: one that is cut short is closed. -/
def ending (fault : Option Fault) : Fault :=
  match fault with
  | none => .closed
  | some .truncated => .closed
  | some fault => fault
/-- What plain decoding of a stream comes to. -/
def settled (a : Assembly) (decoded : List Frame × Option Fault) : List Frame × Except Fault Bytes :=
  settle sha256Hex allocUnsafe expected maxObjectBytes (ending decoded.2) a decoded.1
def decodeBytes (bytes : Bytes) : List Frame × Option Fault := decodeFrames [bytes]

theorem decodeBytes_eq (bytes : Bytes) : decodeBytes bytes = ((takeFrames bytes).1,
    match (takeFrames bytes).2 with
    | .error fault => some fault
    | .ok pending => if pending = [] then none else some .truncated) := by
  rw [decodeBytes,decodeFrames,decodeChunks,List.nil_append]
  rcases takeFrames bytes with ⟨frames,fault | pending⟩
  · rfl
  · simp [decodeChunks]
theorem settled_short {bytes : Bytes} (a : Assembly) (read : readFrame bytes = .ok (.short needed)) :
    settled sha256Hex allocUnsafe expected maxObjectBytes a (decodeBytes bytes) = ([],.error .closed) := by
  rw [decodeBytes_eq,takeFrames_short read]
  unfold settled
  dsimp only
  split_ifs <;> rfl
theorem readFrame_fault {bytes : Bytes} (read : readFrame bytes = .error fault) : ending (some fault) = fault := by
  unfold readFrame at read
  dsimp only at read
  split_ifs at read <;> (cases read; rfl)
theorem settled_error {bytes : Bytes} (a : Assembly) (read : readFrame bytes = .error fault) :
    settled sha256Hex allocUnsafe expected maxObjectBytes a (decodeBytes bytes) = ([],.error fault) := by
  rw [decodeBytes_eq,takeFrames_error read]
  exact congrArg (fun fault => ([],Except.error fault)) (readFrame_fault read)
theorem settled_frame {bytes rest : Bytes} {frame : Frame} (a : Assembly)
    (read : readFrame bytes = .ok (.frame frame rest)) :
    settled sha256Hex allocUnsafe expected maxObjectBytes a (decodeBytes bytes) =
      match onFrame sha256Hex allocUnsafe expected maxObjectBytes a frame 0 with
      | .error fault => ([frame],.error fault)
      | .ok (.resolves object) => ([frame],.ok object)
      | .ok (.waits a) =>
        let later := settled sha256Hex allocUnsafe expected maxObjectBytes a (decodeBytes rest)
        (frame :: later.1,later.2) := by
  rw [decodeBytes_eq,takeFrames_frame read,settled,settle]
  rcases onFrame sha256Hex allocUnsafe expected maxObjectBytes a frame 0 with fault | ⟨a⟩ | ⟨object⟩
  · rfl
  · dsimp only
    rw [decodeBytes_eq rest]
    rfl
  · rfl

theorem handleFrames_error {pending : Bytes} (a : Assembly) (read : readFrame pending = .error fault) :
    handleFrames sha256Hex allocUnsafe expected maxObjectBytes a pending = ([],.rejects fault) := by
  rw [handleFrames]
  split <;> simp_all
theorem handleFrames_short {pending : Bytes} (a : Assembly) (read : readFrame pending = .ok (.short needed)) :
    handleFrames sha256Hex allocUnsafe expected maxObjectBytes a pending =
      ([],.runs ⟨if pending = [] then [] else [pending],pending.length,needed,a⟩) := by
  rw [handleFrames]
  split <;> simp_all
theorem handleFrames_frame {pending rest : Bytes} {frame : Frame} (a : Assembly)
    (read : readFrame pending = .ok (.frame frame rest)) :
    handleFrames sha256Hex allocUnsafe expected maxObjectBytes a pending =
      match onFrame sha256Hex allocUnsafe expected maxObjectBytes a frame rest.length with
      | .error fault => ([frame],.rejects fault)
      | .ok (.resolves object) => ([frame],.resolves object)
      | .ok (.waits a) =>
        let later := handleFrames sha256Hex allocUnsafe expected maxObjectBytes a rest
        (frame :: later.1,later.2) := by
  rw [handleFrames]
  split
  · simp_all
  · simp_all
  · rename_i frame' rest' read'
    rw [read'] at read
    cases read
    rcases onFrame sha256Hex allocUnsafe expected maxObjectBytes a frame rest.length with fault | ⟨a⟩ | ⟨object⟩ <;> rfl
theorem onFrame_behind (a : Assembly) (frame : Frame) (ended : frame.type = FrameType.eof → behind = 0) :
    onFrame sha256Hex allocUnsafe expected maxObjectBytes a frame behind =
      onFrame sha256Hex allocUnsafe expected maxObjectBytes a frame 0 := by
  by_cases eof : frame.type = FrameType.eof
  · rw [ended eof]
  · simp only [onFrame,if_neg eof]

/-- What is kept is less than a frame, and as much as is counted. -/
structure Receiver.Holds (r : Receiver) : Prop where
  short : readFrame r.parts.flatten = .ok (.short r.needed)
  counted : r.partBytes = r.parts.flatten.length

/-- How a receiver is settled by the chunks that follow. -/
def goOn (stream : List Bytes) : List Frame × Progress → List Frame × Except Fault Bytes
  | (frames,.rejects fault) => (frames,.error fault)
  | (frames,.resolves object) => (frames,.ok object)
  | (frames,.runs r) =>
    let later := receiveChunks sha256Hex allocUnsafe expected maxObjectBytes r stream
    (frames ++ later.1,later.2)
theorem receiveChunks_cons (r : Receiver) (chunk : Bytes) (stream : List Bytes) :
    receiveChunks sha256Hex allocUnsafe expected maxObjectBytes r (chunk :: stream) =
      goOn sha256Hex allocUnsafe expected maxObjectBytes stream
        (onData sha256Hex allocUnsafe expected maxObjectBytes r chunk) := by
  rw [receiveChunks]
  rcases onData sha256Hex allocUnsafe expected maxObjectBytes r chunk with ⟨frames,⟨r⟩ | ⟨fault⟩ | ⟨object⟩⟩ <;> rfl
theorem goOn_cons (stream : List Bytes) (frame : Frame) (come : List Frame × Progress) :
    goOn sha256Hex allocUnsafe expected maxObjectBytes stream (frame :: come.1,come.2) =
      (frame :: (goOn sha256Hex allocUnsafe expected maxObjectBytes stream come).1,
        (goOn sha256Hex allocUnsafe expected maxObjectBytes stream come).2) := by
  rcases come with ⟨frames,⟨r⟩ | ⟨fault⟩ | ⟨object⟩⟩ <;> rfl
/-- The loop over the bytes at hand, and the chunks that come after them. -/
theorem handleFrames_settles (stream : List Bytes)
    (later : ∀ {r : Receiver}, r.Holds → Ended (r.parts.flatten ++ stream.flatten) →
    receiveChunks sha256Hex allocUnsafe expected maxObjectBytes r stream =
      settled sha256Hex allocUnsafe expected maxObjectBytes r.assembly
        (decodeBytes (r.parts.flatten ++ stream.flatten)))
    (a : Assembly) (pending : Bytes) (ended : Ended (pending ++ stream.flatten)) :
    goOn sha256Hex allocUnsafe expected maxObjectBytes stream
        (handleFrames sha256Hex allocUnsafe expected maxObjectBytes a pending) =
      settled sha256Hex allocUnsafe expected maxObjectBytes a (decodeBytes (pending ++ stream.flatten)) := by
  induction length : pending.length using Nat.strong_induction_on generalizing a pending with
  | _ length ih =>
    subst length
    cases read : readFrame pending with
    | error fault =>
      rw [handleFrames_error _ _ _ _ a read,settled_error _ _ _ _ a ((readFrame_more pending _).1 fault read)]
      rfl
    | ok taken =>
      cases taken with
      | short needed =>
        have kept : (if pending = [] then [] else [pending]).flatten = pending := by
          split_ifs with none
          · rw [none]; rfl
          · simp
        rw [handleFrames_short _ _ _ _ a read,goOn,
          later ⟨by rw [kept]; exact read,by rw [kept]⟩ (by rw [kept]; exact ended),kept]
        rfl
      | frame frame rest =>
        have whole := readFrame_frame read stream.flatten
        have behind : frame.type = FrameType.eof → rest.length = 0 := fun eof => by
          have none := ended (rest ++ stream.flatten) (by rw [behindEof_frame whole,if_pos eof])
          rw [(List.append_eq_nil_iff.mp none).1]
          rfl
        rw [handleFrames_frame _ _ _ _ a read,settled_frame _ _ _ _ a whole,onFrame_behind _ _ _ _ a frame behind]
        rcases handled : onFrame sha256Hex allocUnsafe expected maxObjectBytes a frame 0 with fault | ⟨a'⟩ | ⟨object⟩
        · rfl
        · dsimp only
          have isOpen : frame.type ≠ FrameType.eof := fun eof => by
            simp only [onFrame,eof,FrameType.eof,FrameType.error,FrameType.metadata,FrameType.chunk] at handled
            split_ifs at handled
            all_goals simp_all
          have after : Ended (rest ++ stream.flatten) := fun left found =>
            ended left (by rw [behindEof_frame whole,if_neg isOpen,found])
          rw [goOn_cons,ih rest.length (readFrame_shorter read) a' rest after rfl]
        · rfl
theorem receiveChunks_settles (stream : List Bytes) :
    ∀ {r : Receiver}, r.Holds → Ended (r.parts.flatten ++ stream.flatten) →
    receiveChunks sha256Hex allocUnsafe expected maxObjectBytes r stream =
      settled sha256Hex allocUnsafe expected maxObjectBytes r.assembly
        (decodeBytes (r.parts.flatten ++ stream.flatten)) := by
  induction stream with
  | nil =>
    intro r holds _
    rw [List.flatten_nil,List.append_nil,settled_short _ _ _ _ _ holds.short]
    rfl
  | cons chunk rest ih =>
    intro r holds ended
    have joined : r.parts.flatten ++ (chunk :: rest).flatten = (r.parts ++ [chunk]).flatten ++ rest.flatten := by simp
    rw [joined] at ended ⊢
    have counted : r.partBytes + chunk.length = (r.parts ++ [chunk]).flatten.length := by simp [holds.counted]
    rw [receiveChunks_cons,onData]
    by_cases waits : r.partBytes + chunk.length < r.needed
    · rw [if_pos waits,goOn]
      have short := ((readFrame_more r.parts.flatten chunk).2 r.needed holds.short).2 (by
        rw [List.length_append,← holds.counted]
        exact waits)
      rw [ih (r := ⟨r.parts ++ [chunk],r.partBytes + chunk.length,r.needed,r.assembly⟩)
        ⟨by simpa using short,counted⟩ ended]
      rfl
    · rw [if_neg waits]
      exact handleFrames_settles _ _ _ _ rest ih r.assembly _ ended
/-- However a stream is cut, the receiver takes the frames that decoding the whole
    stream yields, and is settled by them. -/
theorem receiveObject_settles (stream : List Bytes) (ended : Ended stream.flatten) :
    receiveObject sha256Hex allocUnsafe expected maxObjectBytes stream =
      settled sha256Hex allocUnsafe expected maxObjectBytes .new (decodeBytes stream.flatten) :=
  receiveChunks_settles _ _ _ _ stream (r := .new) ⟨rfl,rfl⟩ ended

/-! ### The streams of an object -/

/-- A payload that names the object asked for. -/
def Names (payload : Bytes) : Prop := ∃ fields, parseJsonObject payload = .ok fields ∧
  fieldText fields (lit "sha256") = some expected.sha256 ∧ fieldNumber fields (lit "size") = some (expected.size : ℚ)
/-- Chunks of an object and its end, with so many chunks before. -/
def Chunks (payloads : List Bytes) (stream : Bytes) (before : Nat) : Prop :=
  stream = payloads.flatMap (frameBytes FrameType.chunk) ++ frameBytes FrameType.eof [] ∧
    (∀ payload ∈ payloads, payload ≠ [] ∧ payload.length ≤ maxFrameBytes) ∧
    before + payloads.length ≤ maxChunks expected.size
/-- Metadata that names the object asked for, chunks within bounds and an end: together
    an object of its size and digest. -/
def Carries (stream object : Bytes) : Prop := ∃ metadata payloads rest,
  stream = frameBytes FrameType.metadata metadata ++ rest ∧ metadata.length ≤ maxFrameBytes ∧ Names expected metadata ∧
    Chunks expected payloads rest 0 ∧ payloads.flatten = object ∧ object.length = expected.size ∧
    object.length ≤ maxObjectBytes ∧ sha256Hex object = expected.sha256

/-- The bytes taken so far stand in front of a buffer of the object's size. -/
structure Assembly.Fills (a : Assembly) : Prop where
  seen : a.metadataSeen = true
  counted : a.receivedBytes = a.hash.length
  buffer : ∃ buffer, a.object = some buffer ∧ buffer.length = expected.size ∧ buffer.take a.hash.length = a.hash
  inside : a.hash.length ≤ expected.size
  limited : a.hash.length ≤ maxObjectBytes
  budget : a.chunkCount ≤ maxChunks expected.size

theorem copyInto_fills {buffer payload hash : Bytes} (front : buffer.take hash.length = hash)
    (fits : hash.length + payload.length ≤ buffer.length) :
    (copyInto buffer payload hash.length).length = buffer.length ∧
      (copyInto buffer payload hash.length).take (hash ++ payload).length = hash ++ payload := by
  unfold copyInto
  rw [front]
  constructor
  · simp only [List.length_append,List.length_drop]
    omega
  · rw [List.take_left' rfl]
variable {sha256Hex allocUnsafe expected maxObjectBytes}

/-- A chunk within the bounds is taken. -/
theorem onFrame_chunk {a : Assembly} (fills : a.Fills expected maxObjectBytes) {payload : Bytes} (some : payload ≠ [])
    (few : a.chunkCount < maxChunks expected.size) (fits : a.hash.length + payload.length ≤ expected.size)
    (limit : a.hash.length + payload.length ≤ maxObjectBytes) (behind : Nat) : ∃ a' : Assembly,
      onFrame sha256Hex allocUnsafe expected maxObjectBytes a ⟨FrameType.chunk,payload⟩ behind = .ok (.waits a') ∧
      a'.Fills expected maxObjectBytes ∧ a'.hash = a.hash ++ payload ∧ a'.chunkCount = a.chunkCount + 1 := by
  obtain ⟨buffer,object,size,front⟩ := fills.buffer
  refine ⟨{ a with
      chunkCount := a.chunkCount + 1
      object := a.object.map (fun object => copyInto object payload a.receivedBytes)
      hash := a.hash ++ payload
      receivedBytes := a.receivedBytes + payload.length },?_,?_,rfl,rfl⟩
  · unfold onFrame
    simp only [FrameType.chunk,FrameType.error,FrameType.metadata,fills.seen,fills.counted]
    rw [if_neg (by omega),if_neg (by omega),if_pos trivial,if_neg (by simp),
      if_neg (by rw [not_or]; exact ⟨some,by omega⟩),if_neg (by omega)]
  · obtain ⟨length,taken⟩ := @copyInto_fills buffer payload a.hash front (by rw [size]; exact fits)
    refine ⟨fills.seen,?_,⟨_,?_,length.trans size,taken⟩,?_,?_,few⟩
    · rw [List.length_append,← fills.counted]
    · show a.object.map _ = _
      rw [object,Option.map_some,fills.counted]
    · rw [List.length_append]; exact fits
    · rw [List.length_append]; exact limit
theorem onFrame_waits {a a' : Assembly} (seen : a.metadataSeen = true) {frame : Frame}
    (waits : onFrame sha256Hex allocUnsafe expected maxObjectBytes a frame behind = .ok (.waits a')) :
    frame.type = FrameType.chunk ∧ frame.payload ≠ [] ∧ a.chunkCount < maxChunks expected.size ∧
      a.receivedBytes + frame.payload.length ≤ expected.size ∧
        a.receivedBytes + frame.payload.length ≤ maxObjectBytes := by
  unfold onFrame at waits
  split at waits
  · cases waits
  split at waits
  · rw [if_pos (.inl seen)] at waits
    cases waits
  split at waits
  · rename_i chunk
    rw [if_neg (by simp [seen])] at waits
    split at waits
    · cases waits
    split at waits
    · cases waits
    rename_i budget size
    simp only [not_or,not_le,not_lt] at budget size
    exact ⟨chunk,budget.1,budget.2,size.1,size.2⟩
  split at waits
  · split at waits
    · cases waits
    split at waits
    · cases waits
    split at waits
    · cases waits
    cases waits
  · cases waits
theorem onFrame_resolves {frame : Frame} {object : Bytes} :
    onFrame sha256Hex allocUnsafe expected maxObjectBytes a frame behind = .ok (.resolves object) ↔
      frame = ⟨FrameType.eof,[]⟩ ∧ a.metadataSeen = true ∧ a.receivedBytes = expected.size ∧ behind = 0 ∧
        sha256Hex a.hash = expected.sha256 ∧ a.object.getD [] = object := by
  constructor
  · intro resolves
    unfold onFrame at resolves
    split at resolves
    · cases resolves
    split at resolves
    · split at resolves
      · cases resolves
      split at resolves
      · cases resolves
      split at resolves
      · cases resolves
      cases resolves
    split at resolves
    · split at resolves
      · cases resolves
      split at resolves
      · cases resolves
      split at resolves
      · cases resolves
      cases resolves
    split at resolves
    · rename_i eof
      split at resolves
      · cases resolves
      split at resolves
      · cases resolves
      split at resolves
      · cases resolves
      rename_i complete none digest
      cases resolves
      simp only [ne_eq,not_or,not_not,Bool.not_eq_false] at complete none digest
      obtain ⟨type,payload⟩ := frame
      exact ⟨by rw [show type = FrameType.eof from eof,show payload =
        [] from complete.1],complete.2.1,complete.2.2,none,digest,rfl⟩
    · cases resolves
  · rintro ⟨rfl,seen,size,rfl,digest,rfl⟩
    simp [onFrame,FrameType.eof,FrameType.error,FrameType.metadata,FrameType.chunk,seen,size,digest]

variable (sha256Hex allocUnsafe) in
/-- Once the metadata is there, chunks and an end resolve with the object they make up, if
    it is the one asked for. -/
theorem chunks_resolve (payloads : List Bytes) : ∀ {a : Assembly} {stream : Bytes}, a.Fills expected maxObjectBytes →
    Chunks expected payloads stream a.chunkCount → (a.hash ++ payloads.flatten).length = expected.size →
    (a.hash ++ payloads.flatten).length ≤ maxObjectBytes → sha256Hex (a.hash ++ payloads.flatten) = expected.sha256 →
    (settled sha256Hex allocUnsafe expected maxObjectBytes a (decodeBytes stream)).2 =
      .ok (a.hash ++ payloads.flatten) := by
  induction payloads with
  | nil =>
    intro a stream fills chunks size _ digest
    rw [List.flatten_nil,List.append_nil] at size digest ⊢
    obtain ⟨buffer,object,length,front⟩ := fills.buffer
    have read : readFrame stream = .ok (.frame ⟨FrameType.eof,[]⟩ []) := by
      rw [chunks.1]
      exact readFrame_bytes proper_eof []
    have resolves : onFrame sha256Hex allocUnsafe expected maxObjectBytes a ⟨FrameType.eof,[]⟩ 0 =
        .ok (.resolves a.hash) := by
      refine onFrame_resolves.mpr ⟨rfl,fills.seen,fills.counted.trans size,rfl,digest,?_⟩
      rw [object,Option.getD_some,← front,size,← length,List.take_length]
    rw [settled_frame _ _ _ _ a read,resolves]
  | cons payload rest ih =>
    intro a stream fills chunks size limit digest
    obtain ⟨made,each,few⟩ := chunks
    obtain ⟨some,fits⟩ := each payload List.mem_cons_self
    rw [List.flatten_cons] at size limit digest ⊢
    rw [← List.append_assoc] at size limit digest ⊢
    simp only [List.length_append] at size limit
    rw [List.length_cons] at few
    obtain ⟨a',taken,fills',hash,count⟩ := @onFrame_chunk sha256Hex allocUnsafe _ _ a fills payload some
      (by omega) (by omega) (by omega) 0
    have read : readFrame stream = .ok (.frame ⟨FrameType.chunk,payload⟩
        (rest.flatMap (frameBytes FrameType.chunk) ++ frameBytes FrameType.eof [])) := by
      rw [made,List.flatMap_cons,List.append_assoc]
      exact readFrame_bytes (proper_chunk fits) _
    rw [settled_frame _ _ _ _ a read,taken]
    dsimp only
    rw [← hash] at digest ⊢
    exact ih fills' ⟨rfl,fun p member => each p (List.mem_cons_of_mem _ member),by omega⟩
      (by rw [List.length_append,hash,List.length_append]; exact size)
      (by rw [List.length_append,hash,List.length_append]; exact limit) digest
variable (sha256Hex allocUnsafe) in
theorem resolve_chunks {stream : Bytes} (fills : a.Fills expected maxObjectBytes)
    {object : Bytes} (ended : Ended stream)
    (resolves : (settled sha256Hex allocUnsafe expected maxObjectBytes a (decodeBytes stream)).2 = .ok object) :
    ∃ payloads, Chunks expected payloads stream a.chunkCount ∧ object = a.hash ++ payloads.flatten ∧
      object.length = expected.size ∧ object.length ≤ maxObjectBytes ∧ sha256Hex object = expected.sha256 := by
  induction length : stream.length using Nat.strong_induction_on generalizing a stream with
  | _ length ih =>
    subst length
    cases read : readFrame stream with
    | error fault =>
      rw [settled_error _ _ _ _ a read] at resolves
      cases resolves
    | ok taken =>
      cases taken with
      | short needed =>
        rw [settled_short _ _ _ _ a read] at resolves
        cases resolves
      | frame frame rest =>
        rw [settled_frame _ _ _ _ a read] at resolves
        obtain ⟨proper,made⟩ := readFrame_inv read
        rcases handled : onFrame sha256Hex allocUnsafe expected maxObjectBytes a frame 0 with fault | ⟨a'⟩ | ⟨whole⟩
        · rw [handled] at resolves
          cases resolves
        · rw [handled] at resolves
          dsimp only at resolves
          obtain ⟨type,some,few,fits,limit⟩ := onFrame_waits fills.seen handled
          obtain ⟨type',payload⟩ := frame
          dsimp only at type some fits limit
          subst type
          rw [fills.counted] at fits limit
          obtain ⟨a'',again,fills',hash,count⟩ :=
            @onFrame_chunk sha256Hex allocUnsafe _ _ a fills payload some few fits limit 0
          rw [handled] at again
          cases again
          have isOpen : Ended rest := fun left found =>
              ended left (by rw [behindEof_frame read,if_neg (by simp [FrameType.chunk,FrameType.eof]),found])
          obtain ⟨payloads,⟨made',each,few'⟩,same,facts⟩ :=
            ih rest.length (readFrame_shorter read) fills' isOpen resolves rfl
          refine ⟨payload :: payloads,⟨?_,?_,?_⟩,?_,facts⟩
          · rw [made,made',List.flatMap_cons,List.append_assoc]
            rfl
          · intro p member
            rcases List.mem_cons.mp member with rfl | later
            · exact ⟨some,proper.fits⟩
            · exact each p later
          · rw [List.length_cons]
            omega
          · rw [same,hash,List.flatten_cons,List.append_assoc]
        · rw [handled] at resolves
          cases resolves
          obtain ⟨rfl,_,size,_,digest,same⟩ := onFrame_resolves.mp handled
          obtain ⟨buffer,object',length,front⟩ := fills.buffer
          have none : rest = [] := ended rest (by rw [behindEof_frame read,if_pos rfl])
          have full : object = a.hash := by
            rw [← same,object',Option.getD_some,← front,← fills.counted,size,← length,List.take_length]
          rw [full]
          refine ⟨[],⟨?_,fun p member => (by cases member),fills.budget⟩,
            by simp,fills.counted.symm.trans size,fills.limited,digest⟩
          rw [made,none,List.append_nil]
          rfl
variable (allocUnsafe expected) in
def Assembly.begun : Assembly :=
  { Assembly.new with metadataSeen := true, object := some (allocUnsafe expected.size).toList }
theorem onFrame_metadata {payload : Bytes} :
    onFrame sha256Hex allocUnsafe expected maxObjectBytes .new ⟨FrameType.metadata,payload⟩ behind = .ok (.waits a) ↔
      Names expected payload ∧ a = .begun allocUnsafe expected := by
  unfold onFrame Names
  rw [if_neg (by decide : ¬ FrameType.metadata = FrameType.error),if_pos rfl,if_neg (by simp [Assembly.new])]
  cases parseJsonObject payload with
  | error fault => simp
  | ok fields =>
    dsimp only
    split_ifs with other
    · simp only [false_iff,not_and]
      rintro ⟨fields',same,digest,size⟩
      cases same
      simp [digest,size] at other
    · simp only [not_or,not_not] at other
      simp only [Except.ok.injEq,Handled.waits.injEq]
      constructor
      · exact fun same => ⟨⟨fields,rfl,other⟩,same.symm⟩
      · exact fun both => both.2.symm
variable (allocUnsafe) in
theorem begun_fills : (Assembly.begun allocUnsafe expected).Fills expected maxObjectBytes :=
  ⟨rfl,rfl,⟨_,rfl,by simp,rfl⟩,Nat.zero_le _,Nat.zero_le _,Nat.zero_le _⟩
theorem onFrame_first {frame : Frame}
    (waits : onFrame sha256Hex allocUnsafe expected maxObjectBytes .new frame behind = .ok (.waits a)) :
    frame.type = FrameType.metadata := by
  unfold onFrame at waits
  split at waits
  · cases waits
  split at waits
  · assumption
  split at waits
  · rw [if_pos (show Assembly.new.metadataSeen = false from rfl)] at waits
    cases waits
  split at waits
  · rw [if_pos (.inr (.inl rfl))] at waits
    cases waits
  · cases waits
variable (sha256Hex allocUnsafe) in
theorem settled_carries {stream : Bytes} (ended : Ended stream) {object : Bytes} :
    (settled sha256Hex allocUnsafe expected maxObjectBytes .new (decodeBytes stream)).2 = .ok object ↔
      Carries sha256Hex expected maxObjectBytes stream object := by
  constructor
  · intro resolves
    cases read : readFrame stream with
    | error fault =>
      rw [settled_error _ _ _ _ _ read] at resolves
      cases resolves
    | ok taken =>
      cases taken with
      | short needed =>
        rw [settled_short _ _ _ _ _ read] at resolves
        cases resolves
      | frame frame rest =>
        rw [settled_frame _ _ _ _ _ read] at resolves
        obtain ⟨proper,made⟩ := readFrame_inv read
        rcases handled : onFrame sha256Hex allocUnsafe expected maxObjectBytes .new frame 0 with fault | ⟨a⟩ | ⟨whole⟩
        · rw [handled] at resolves
          cases resolves
        · rw [handled] at resolves
          dsimp only at resolves
          have type := onFrame_first handled
          obtain ⟨type',metadata⟩ := frame
          dsimp only at type
          subst type
          obtain ⟨names,rfl⟩ := onFrame_metadata.mp handled
          have isOpen : Ended rest := fun left found => ended left (by
            rw [behindEof_frame read,if_neg (by simp [FrameType.metadata,FrameType.eof]),found])
          obtain ⟨payloads,chunks,same,facts⟩ :=
            resolve_chunks sha256Hex allocUnsafe (begun_fills allocUnsafe) isOpen resolves
          exact ⟨metadata,payloads,rest,made,proper.fits,names,chunks,by rw [same]; rfl,facts⟩
        · have seen := (onFrame_resolves.mp handled).2.1
          cases seen
  · rintro ⟨metadata,payloads,rest,rfl,fits,names,chunks,rfl,size,limit,digest⟩
    have read : readFrame (frameBytes FrameType.metadata metadata ++ rest) =
        .ok (.frame ⟨FrameType.metadata,metadata⟩ rest) :=
      readFrame_bytes (proper_metadata fits) rest
    have taken : onFrame sha256Hex allocUnsafe expected maxObjectBytes .new ⟨FrameType.metadata,metadata⟩ 0 =
        .ok (.waits (.begun allocUnsafe expected)) :=
      onFrame_metadata.mpr ⟨names,rfl⟩
    have resolves := chunks_resolve sha256Hex allocUnsafe payloads (begun_fills allocUnsafe) chunks size limit digest
    rw [settled_frame _ _ _ _ _ read,taken]
    exact resolves

/-! ### What a server writes -/

/-- A text of printable ASCII. -/
def Ascii (text : Text) : Prop := ∀ unit ∈ text, unit < 128

theorem utf8Bytes_ascii : ∀ {text : Text}, Ascii text → utf8Bytes text = text.map UInt8.ofNat := by
  have plain : ∀ {unit : Nat}, unit < 128 → high unit = false ∧ low unit = false := fun small => by
    simp only [high,low,Bool.and_eq_false_iff,decide_eq_false_iff_not]
    omega
  intro text
  induction text using utf8Bytes.induct with
  | case1 => intro _; rfl
  | case2 unit =>
    intro ascii
    have small := ascii unit List.mem_cons_self
    simp [utf8Bytes,plain small,pointBytes,small]
  | case3 first second rest both =>
    intro ascii
    have small := ascii first List.mem_cons_self
    simp [plain small] at both
  | case4 first second rest _ ih =>
    intro ascii
    have small := ascii first List.mem_cons_self
    rw [utf8Bytes,if_neg (by simp [plain small]),ih (fun unit member => ascii unit (List.mem_cons_of_mem _ member))]
    simp [plain small,pointBytes,small]
theorem utf8From_ascii : ∀ {text : Text}, Ascii text → utf8From .idle (text.map UInt8.ofNat) = text := by
  intro text
  induction text with
  | nil => intro _; rfl
  | cons unit rest ih =>
    intro ascii
    have small := ascii unit List.mem_cons_self
    have same : (UInt8.ofNat unit).toNat = unit := by
      rw [UInt8.toNat_ofNat']
      omega
    rw [List.map_cons,utf8From,same]
    simp only [utf8Byte,Sequence.idle,leadByte,if_pos small,if_true,List.cons_append,List.nil_append]
    exact congrArg _ (ih (fun unit member => ascii unit (List.mem_cons_of_mem _ member)))
theorem utf8_ascii {text : Text} (ascii : Ascii text) : utf8 (utf8Bytes text) = text := by
  rw [utf8Bytes_ascii ascii]
  exact utf8From_ascii ascii

theorem hex64_unit {text : Text} (hex : hex64 text = true) :
    text.length = 64 ∧ ∀ unit ∈ text, 48 ≤ unit ∧ unit ≤ 102 ∧ unit ≠ 92 := by
  simp only [hex64,Bool.and_eq_true,decide_eq_true_eq,List.all_eq_true,Bool.or_eq_true,digit] at hex
  refine ⟨hex.1,fun unit member => ?_⟩
  have := hex.2 unit member
  omega
theorem escapeAll_plain : ∀ {text : Text} (before : Option Nat), (∀ unit ∈ text, 35 ≤ unit ∧ unit < 128 ∧ unit ≠ 92) →
    escapeAll before text = text := by
  intro text
  induction text with
  | nil => intro _ _; rfl
  | cons unit rest ih =>
    intro before plain
    obtain ⟨low',high',back⟩ := plain unit List.mem_cons_self
    have alone : ∀ paired, escape paired unit = [unit] := fun paired => by
      unfold escape
      split
      all_goals first | omega | skip
      rw [if_neg]
      simp only [high,low,Bool.and_eq_true,decide_eq_true_eq]
      omega
    rw [escapeAll,alone,ih _ (fun unit member => plain unit (List.mem_cons_of_mem _ member))]
    rfl
theorem quote_hex {text : Text} (hex : hex64 text = true) : quote text = 34 :: text ++ [34] := by
  rw [quote,escapeAll_plain _ (fun unit member => ?_)]
  have := (hex64_unit hex).2 unit member
  omega
theorem decimalAux_length (fuel : Nat) : ∀ (n k : Nat) (behind : Text), n < 10 ^ (k + 1) →
    (decimalAux fuel n behind).length ≤ k + 1 + behind.length := by
  induction fuel with
  | zero => intro n k behind _; simp [decimalAux]
  | succ fuel ih =>
    intro n k behind small
    unfold decimalAux
    split_ifs with single
    · simp only [List.length_cons]
      omega
    · cases k with
      | zero => omega
      | succ k =>
        have less := ih (n / 10) k ((48 + n % 10) :: behind) (by rw [pow_succ] at small; omega)
        rw [List.length_cons] at less
        omega
theorem metadata_names {identity : Identity} (hex : hex64 identity.sha256 = true)
    (safe : identity.size ≤ 9007199254740991) :
    (utf8Bytes (write (metadataOf identity))).length ≤ maxFrameBytes ∧
      Names identity (utf8Bytes (write (metadataOf identity))) := by
  have digits := decimal_digits identity.size
  have number : writeNumber (identity.size : ℚ) = decimal identity.size := by
    unfold writeNumber
    rw [if_pos ⟨by simp,by simp; omega⟩]
    simp
  have keys : quote (lit "sha256") = lit "\"sha256\"" ∧ quote (lit "size") = lit "\"size\"" := by decide
  have text : write (metadataOf identity) = 123 :: (lit "\"sha256\"" ++ 58 :: (34 :: identity.sha256 ++ [34]) ++
      44 :: (lit "\"size\"" ++ 58 :: decimal identity.size)) ++ [125] := by
    simp only [metadataOf,write,writeFields,commas,quote_hex hex,number,keys.1,keys.2]
  obtain ⟨length,units⟩ := hex64_unit hex
  have ascii : Ascii (write (metadataOf identity)) := by
    rw [text]
    intro unit member
    simp only [List.mem_append,List.mem_cons,List.not_mem_nil,or_false] at member
    have named : ∀ unit ∈ lit "\"sha256\"" ++ lit "\"size\"", unit < 128 := by decide
    have digits' : unit ∈ decimal identity.size → unit < 128 := fun member => by
      have := digits.all unit member
      simp only [digit,Bool.and_eq_true,decide_eq_true_eq] at this
      omega
    have hexes : unit ∈ identity.sha256 → unit < 128 := fun member => by
      have := units unit member
      omega
    rcases member with (rfl | (key | rfl | (rfl | digest) | rfl) | rfl | key | rfl | size) | rfl
    all_goals
      first
      | omega
      | exact named unit (List.mem_append_left _ key)
      | exact named unit (List.mem_append_right _ key)
      | exact digits' size
      | exact hexes digest
  have plain : Plain (metadataOf identity) := by
    refine .object (fun field member => ?_) rfl
    rcases List.mem_cons.mp member with rfl | member
    · exact .string _
    · rw [List.mem_singleton.mp member]
      have number := Plain.number (identity.size : ℤ) (by simp; omega)
      rwa [Int.cast_natCast] at number
  constructor
  · rw [utf8Bytes_ascii ascii,List.length_map,text]
    have short := decimalAux_length (identity.size + 1) identity.size 15 [] (by omega)
    have keys' : (lit "\"sha256\"").length = 8 ∧ (lit "\"size\"").length = 6 := by decide
    simp only [List.length_cons,List.length_append,List.length_nil,keys'.1,keys'.2,length,maxFrameBytes]
    rw [← decimal] at short
    simp only [List.length_nil] at short
    omega
  · refine ⟨[(lit "sha256",.string identity.sha256),(lit "size",.number identity.size)],?_,rfl,rfl⟩
    rw [parseJsonObject,utf8_ascii ascii,parse_write plain]
    rfl

theorem payloads_object (object : Bytes) : (payloads object).flatten = object ∧
    (∀ payload ∈ payloads object, payload ≠ [] ∧ payload.length ≤ maxFrameBytes) ∧
    (payloads object).length = (object.length + (maxFrameBytes - 1)) / maxFrameBytes := by
  have positive : 0 < maxFrameBytes := by decide
  refine ⟨?_,?_,by simp [payloads]⟩
  · have joined :
        ∀ count, ((List.range count).map (fun i => (object.drop (i * maxFrameBytes)).take maxFrameBytes)).flatten =
        object.take (count * maxFrameBytes) := by
      intro count
      induction count with
      | zero => simp
      | succ count ih =>
        rw [List.range_succ,List.map_append,List.flatten_append,ih,Nat.succ_mul,List.take_add]
        simp
    rw [payloads,joined,List.take_of_length_le]
    have split := Nat.div_add_mod (object.length + (maxFrameBytes - 1)) maxFrameBytes
    have rest := Nat.mod_lt (object.length + (maxFrameBytes - 1)) positive
    rw [Nat.mul_comm]
    omega
  · intro payload member
    obtain ⟨i,inside,rfl⟩ := List.mem_map.mp member
    have before : (i + 1) * maxFrameBytes ≤ object.length + (maxFrameBytes - 1) :=
      (Nat.le_div_iff_mul_le positive).mp (List.mem_range.mp inside)
    rw [Nat.succ_mul] at before
    refine ⟨fun none => ?_,List.length_take_le ..⟩
    have := congrArg List.length none
    rw [List.length_take,List.length_drop,List.length_nil] at this
    omega
theorem objectStream_carries {authorization : Identity} {object : Bytes}
    (same : expected.sha256 = authorization.sha256 ∧
    expected.size = authorization.size) (hex : hex64 authorization.sha256 = true) (safe : authorization.size ≤
      9007199254740991)
    (size : object.length = authorization.size) (limit : object.length ≤ maxObjectBytes)
    (digest : sha256Hex object = authorization.sha256) :
    Carries sha256Hex expected maxObjectBytes (objectStream authorization object) object := by
  obtain ⟨short,names⟩ := metadata_names hex safe
  obtain ⟨whole,each,count⟩ := payloads_object object
  have names' : Names expected (utf8Bytes (write (metadataOf authorization))) := by
    unfold Names
    rw [same.1,same.2]
    exact names
  refine ⟨_,payloads object,_,by rw [objectStream,List.append_assoc],short,names',⟨rfl,each,
    ?_⟩,whole,size.trans same.2.symm,limit,digest.trans same.1.symm⟩
  rw [Nat.zero_add,count,size,same.2]
  unfold maxChunks
  omega
theorem behindEof_chunks {payloads : List Bytes} (each : ∀ payload ∈ payloads, payload.length ≤ maxFrameBytes) :
    behindEof (payloads.flatMap (frameBytes FrameType.chunk) ++ frameBytes FrameType.eof []) = some [] := by
  induction payloads with
  | nil =>
    have read : readFrame (frameBytes FrameType.eof []) = .ok (.frame ⟨FrameType.eof,[]⟩ []) :=
      readFrame_bytes proper_eof []
    rw [List.flatMap_nil,List.nil_append,behindEof_frame read,if_pos rfl]
  | cons payload rest ih =>
    have read : readFrame (frameBytes FrameType.chunk payload ++
        (rest.flatMap (frameBytes FrameType.chunk) ++ frameBytes FrameType.eof [])) = .ok (.frame ⟨FrameType.chunk,
          payload⟩ _) :=
      readFrame_bytes (proper_chunk (each payload List.mem_cons_self)) _
    rw [List.flatMap_cons,List.append_assoc,behindEof_frame read,if_neg (by simp [FrameType.chunk,FrameType.eof])]
    exact ih (fun p member => each p (List.mem_cons_of_mem _ member))
theorem carries_ended {stream object : Bytes} (carries : Carries sha256Hex expected maxObjectBytes stream object) :
    Ended stream := by
  obtain ⟨metadata,payloads,rest,rfl,fits,_,⟨rfl,each,_⟩,_⟩ := carries
  have chunks := behindEof_chunks (fun payload member => (each payload member).2)
  have read : readFrame (frameBytes FrameType.metadata metadata ++
      (payloads.flatMap (frameBytes FrameType.chunk) ++ frameBytes FrameType.eof [])) = .ok (.frame ⟨FrameType.metadata,
        metadata⟩ _) :=
    readFrame_bytes (proper_metadata fits) _
  intro left found
  rw [behindEof_frame read,if_neg (by simp [FrameType.metadata,FrameType.eof]),chunks] at found
  cases found
  rfl
theorem serve_writes {authorization : Identity} {resolveObject : Identity → Option Bytes} {limit : Nat}
    {requests : List Bytes} {written object : Bytes}
    (served : serveAuthorizedObject sha256Hex authorization resolveObject limit requests = (written,.ok object)) :
    written = objectStream authorization object ∧ hex64 authorization.sha256 = true ∧
      authorization.size ≤ 9007199254740991 ∧
      object.length = authorization.size ∧ sha256Hex object = authorization.sha256 := by
  unfold serveAuthorizedObject at served
  cases valid : validateIdentity authorization limit with
  | error fault => simp [valid] at served
  | ok =>
    cases read : readFirstFrame [] requests with
    | error fault => simp [valid,read] at served
    | ok frame =>
      cases answered : answerRequest sha256Hex authorization resolveObject limit frame with
      | error fault => simp [valid,read,answered] at served
      | ok bytes =>
        simp only [valid,read,answered,Prod.mk.injEq,Except.ok.injEq] at served
        obtain ⟨rfl,rfl⟩ := served
        have facts : bytes.length = authorization.size ∧ sha256Hex bytes = authorization.sha256 := by
          unfold answerRequest at answered
          split at answered
          · cases answered
          split at answered
          · cases answered
          split at answered
          · cases answered
          split at answered
          · cases answered
          split at answered
          · cases answered
          split at answered
          · cases answered
          rename_i same
          cases answered
          simpa using same
        unfold validateIdentity at valid
        split at valid
        · cases valid
        split at valid
        · cases valid
        rename_i hex
        split at valid
        · cases valid
        rename_i size
        exact ⟨rfl,by simpa using hex,by omega,facts⟩
end

section
variable (sha256Hex : Bytes → Text) (allocUnsafe : (size : Nat) → Vector UInt8 size)
variable (expected : Identity) (maxObjectBytes : Nat)

theorem settle_front (fault : Fault) (frames : List Frame) : ∀ a : Assembly,
    (settle sha256Hex allocUnsafe expected maxObjectBytes fault a frames).1 <+: frames := by
  induction frames with
  | nil => exact fun _ => List.prefix_refl _
  | cons frame rest ih =>
    intro a
    unfold settle
    rcases onFrame sha256Hex allocUnsafe expected maxObjectBytes a frame 0 with fault | ⟨a'⟩ | ⟨object⟩
    · exact ⟨rest,rfl⟩
    · exact (List.cons_prefix_cons).mpr ⟨rfl,ih a'⟩
    · exact ⟨rest,rfl⟩
/-- However the chunks are cut, if no byte follows the first end frame: the receiver takes
    the frames that `decodeFrames` yields of the whole stream up to the one that settles
    it, and resolves exactly with what the stream carries. What a server wrote resolves
    with its object. -/
theorem receiveObject_cut :
    (∀ stream : List Bytes, Ended stream.flatten →
      receiveObject sha256Hex allocUnsafe expected maxObjectBytes stream =
        settled sha256Hex allocUnsafe expected maxObjectBytes .new (decodeFrames [stream.flatten]) ∧
      (receiveObject sha256Hex allocUnsafe expected maxObjectBytes stream).1 <+: (decodeFrames [stream.flatten]).1 ∧
      ∀ object, (receiveObject sha256Hex allocUnsafe expected maxObjectBytes stream).2 = .ok object ↔
        Carries sha256Hex expected maxObjectBytes stream.flatten object) ∧
    ∀ (authorization : Identity) (resolveObject : Identity → Option Bytes) (limit : Nat) (requests : List Bytes)
      (written object : Bytes), serveAuthorizedObject sha256Hex authorization resolveObject limit requests =
        (written,.ok object) →
      expected.sha256 = authorization.sha256 → expected.size = authorization.size →
      validateIdentity expected maxObjectBytes = .ok () → ∀ stream : List Bytes, stream.flatten = written →
        requestObject sha256Hex allocUnsafe expected maxObjectBytes stream = .ok object := by
  constructor
  · intro stream ended
    have same := receiveObject_settles sha256Hex allocUnsafe expected maxObjectBytes stream ended
    refine ⟨same,?_,fun object => ?_⟩
    · rw [same]
      exact settle_front _ _ _ _ _ _ _
    · rw [same]
      exact settled_carries sha256Hex allocUnsafe ended
  · intro authorization resolveObject limit requests written object served digest size valid stream whole
    obtain ⟨rfl,hex,safe,length,digest'⟩ := serve_writes served
    have within : object.length ≤ maxObjectBytes := by
      have bounded : authorization.size ≤ maxObjectBytes := by
        rw [← size]
        unfold validateIdentity at valid
        split_ifs at valid with _ _ large
        omega
      omega
    have carries := objectStream_carries ⟨digest,size⟩ hex safe length within digest'
    have ended := carries_ended carries
    rw [← whole] at carries ended
    rw [requestObject,valid]
    dsimp only
    rw [receiveObject_settles sha256Hex allocUnsafe expected maxObjectBytes stream ended]
    exact (settled_carries sha256Hex allocUnsafe ended).mpr carries
end
private def byteIdentity : Identity := ⟨lit "requests",List.replicate 64 48,1⟩
private def byteCut : List Bytes := [(objectStream byteIdentity [7]).take 5,(objectStream byteIdentity [7]).drop 5]
theorem receiveObject_cut_two :
    (receiveObject (fun _ => List.replicate 64 48) (fun size => Vector.replicate size 0) byteIdentity 10 byteCut).2 =
      .ok [7] := by
  have whole : byteCut.flatten = objectStream byteIdentity [7] := by
    unfold byteCut
    rw [List.flatten_cons,List.flatten_cons,List.flatten_nil,List.append_nil,List.take_append_drop]
  have carries : Carries (fun _ => List.replicate 64 48) byteIdentity 10 (objectStream byteIdentity [7]) [7] :=
    objectStream_carries ⟨rfl,rfl⟩ (by decide) (by decide) rfl (by decide) rfl
  have cut :=
    (receiveObject_cut (fun _ => List.replicate 64 48) (fun size => Vector.replicate size 0) byteIdentity 10).1 byteCut
    (by rw [whole]; exact carries_ended carries)
  rw [cut.2.2 [7],whole]
  exact carries
end RelaySwarm.ObjectTransfer
