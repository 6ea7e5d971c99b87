import RelaySwarm.Commitment
import RelaySwarm.ObjectTransfer
import RelaySwarm.TransferFrame

/-!
What goes to a transfer worker and comes back. The page and the worker check the
configuration of a transfer and the arguments of its calls by the same rules, and what
the page sends is what the worker reads (`workerConfig_value`, `workerArguments_raw`).
-/
namespace RelaySwarm.TransferWorker
open JsonText Commitment ObjectTransfer Planning

structure Limits where
  maxTransfers : Nat
  maxSegmentBytes : Nat
  maxActiveBytes : Nat
  maxPending : Nat
  maxPendingBytes : Nat

/-! ### Values -/

/-- A natural number that a double holds exactly; undefined is none. -/
def integer : Option Value → Option Nat
  | some (.number q) => if q.den = 1 ∧ 0 ≤ q.num ∧ q.num ≤ maxSafeInteger then some q.num.toNat else none
  | _ => none
def time : Option Value → Option ℚ
  | some (.number q) => if 0 ≤ q ∧ q ≤ maxSafeInteger then some q else none
  | _ => none
/-- Null, or a time. -/
def estimate : Option Value → Option (Option ℚ)
  | some .null => some none
  | value => (time value).map some
def hash : Option Value → Option Text
  | some (.string text) => if hex64 text then some text else none
  | _ => none
/-- Undefined or a boolean, by whether it is true. -/
def flag : Option Value → Option Bool
  | none => some false
  | some (.bool value) => some value
  | _ => none
def array : Option Value → Option (List Value)
  | some (.array items) => some items
  | _ => none
/-- `value ?? fallback`. -/
def orElse (value : Option Value) (fallback : Value) : Value :=
  match value with
  | none => fallback
  | some .null => fallback
  | some value => value
def isNull : Option Value → Bool
  | none => true
  | some .null => true
  | _ => false

def estimateValue : Option ℚ → Value
  | none => .null
  | some q => .number q

/-! ### The configuration -/

structure Config where
  size : Nat
  sha256 : Text
  pieces : List Text
  deadline : ℚ
  maxHolders : Nat
  originReserveMs : ℚ
  peerOnly : Bool
  exclusiveOrigin : Bool

def workerConfig (value : Option Value) (limits : Limits) : Option Config :=
  match value with
  | some (.object fields) => do
    let pieces ← (← array (field fields (lit "pieces"))).mapM (fun piece => hash (some piece))
    let size ← integer (field fields (lit "size"))
    let sha256 ← hash (field fields (lit "sha256"))
    let deadline ← time (field fields (lit "deadline"))
    let maxHolders ← integer (field fields (lit "maxHolders"))
    let originReserveMs ← time (field fields (lit "originReserveMs"))
    let peerOnly ← flag (field fields (lit "peerOnly"))
    let exclusiveOrigin ← flag (field fields (lit "exclusiveOrigin"))
    if 1 ≤ size ∧ size ≤ limits.maxSegmentBytes ∧ 1 ≤ pieces.length ∧ pieces.length ≤ 256 ∧ 1 ≤ maxHolders ∧
        maxHolders ≤ 32 ∧ ¬ (peerOnly ∧ exclusiveOrigin) then
      some { size,sha256,pieces,deadline,maxHolders,originReserveMs,peerOnly,exclusiveOrigin }
    else none
  | _ => none
/-- The configuration as it is sent. -/
def Config.value (config : Config) : Value :=
  .object ([(lit "size",.number config.size),(lit "sha256",.string config.sha256),
    (lit "pieces",.array (config.pieces.map .string)),(lit "deadline",.number config.deadline),
    (lit "maxHolders",.number config.maxHolders),(lit "originReserveMs",.number config.originReserveMs)] ++
    (if config.peerOnly then [(lit "peerOnly",.bool true)] else []) ++
    (if config.exclusiveOrigin then [(lit "exclusiveOrigin",.bool true)] else []))

/-! ### The arguments of a call -/

inductive Op where
  | start
  | delivered
  | failed
  | progress
  | tick
deriving DecidableEq
/-- The arguments of a call as they are given; bytes are none where no buffer is. -/
structure Raw where
  moment : Option Value
  source : Option Value
  value : Option Value
  bytes : Option (List UInt8)
structure Peer where
  id : Nat
  firstByteMs : Option ℚ
  rate : Option ℚ
inductive Arguments where
  | start (moment : ℚ) (peers : List Peer) (origin : Option (Option ℚ × Option ℚ))
    (sharedFirstByteMs sharedRate : Option ℚ)
      (probePeers : List Nat)
  | delivered (moment : ℚ) (source : Source) (start stop : Nat) (bytes : List UInt8)
  | failed (moment : ℚ) (source : Source)
  | progress (moment : ℚ) (source : Source) (received : Nat)
  | tick (moment : ℚ)
def Arguments.op : Arguments → Op
  | .start .. => .start
  | .delivered .. => .delivered
  | .failed .. => .failed
  | .progress .. => .progress
  | .tick .. => .tick

def peerRow (row : Value) : Option Peer := do
  match row with
  | .array [id,firstByteMs,rate] => some ⟨← integer (some id),← estimate (some firstByteMs),← estimate (some rate)⟩
  | _ => none
def originRow (origin : Option Value) : Option (Option ℚ × Option ℚ) := do
  match origin with
  | some (.array [firstByteMs,rate]) => some (← estimate (some firstByteMs),← estimate (some rate))
  | _ => none
/-- The estimate of origin, which a peer-only transfer must not have. -/
def originArgument (peerOnly : Bool) (origin : Option Value) : Option (Option (Option ℚ × Option ℚ)) :=
  if peerOnly then if isNull origin then some none else none
  else (originRow origin).map some
def sourceArgument (peerOnly : Bool) (source : Option Value) : Option Source :=
  match source with
  | some (.string text) => if text = lit "origin" ∧ peerOnly = false then some .origin else none
  | source => (integer source).map .peer
def startArguments (moment : ℚ) (input : Option Value) (peerOnly : Bool) : Option Arguments :=
  match input with
  | some (.object fields) => do
    let peers ← (← array (field fields (lit "peers"))).mapM peerRow
    let origin ← originArgument peerOnly (field fields (lit "origin"))
    let first ← estimate (some (orElse (field fields (lit "sharedFirstByteMs")) .null))
    let rate ← estimate (some (orElse (field fields (lit "sharedRate")) .null))
    let probePeers ← (← array (some (orElse (field fields (lit "probePeers")) (.array [])))).mapM
      (fun id => integer (some id))
    if peers.length ≤ 32 ∧ probePeers.length ≤ 32 then some (.start moment peers origin first rate probePeers) else none
  | _ => none
def workerArguments (op : Op) (raw : Raw) (maxSegmentBytes : Nat) (peerOnly : Bool) : Option Arguments := do
  let instant ← time raw.moment
  match op with
  | .start => startArguments instant raw.source peerOnly
  | .tick => some (.tick instant)
  | .failed => some (.failed instant (← sourceArgument peerOnly raw.source))
  | .progress =>
    let source ← sourceArgument peerOnly raw.source
    let received ← integer raw.value
    if received ≤ maxSegmentBytes then some (.progress instant source received) else none
  | .delivered =>
    let source ← sourceArgument peerOnly raw.source
    match raw.value with
    | some (.object fields) =>
      let start ← integer (field fields (lit "start"))
      let stop ← integer (field fields (lit "end"))
      let bytes ← raw.bytes
      if start < stop ∧ stop ≤ 256 ∧ bytes.length ≤ maxSegmentBytes
        then some (.delivered instant source start stop bytes)
      else none
    | _ => none

def Peer.value (peer : Peer) : Value := .array [.number peer.id,estimateValue peer.firstByteMs,estimateValue peer.rate]
def sourceValue : Source → Value
  | .peer id => .number id
  | .origin => .string (lit "origin")
def originValue : Option (Option ℚ × Option ℚ) → Value
  | none => .null
  | some (firstByteMs,rate) => .array [estimateValue firstByteMs,estimateValue rate]
/-- The arguments as they are sent. -/
def Arguments.raw : Arguments → Raw
  | .start here peers origin first rate probePeers => ⟨some (.number here),some (.object [
      (lit "peers",.array (peers.map Peer.value)),(lit "origin",originValue origin),
      (lit "sharedFirstByteMs",estimateValue first),(lit "sharedRate",estimateValue rate),
      (lit "probePeers",.array (probePeers.map (fun id : Nat => Value.number id)))]),none,none⟩
  | .delivered here source first last bytes => ⟨some (.number here),some (sourceValue source),
      some (.object [(lit "start",.number first),(lit "end",.number last)]),some bytes⟩
  | .failed here source => ⟨some (.number here),some (sourceValue source),none,none⟩
  | .progress here source received => ⟨some (.number here),some (sourceValue source),some (.number received),none⟩
  | .tick here => ⟨some (.number here),none,none,none⟩

/-! ### Frames -/

def commandTags : List Text :=
  [lit "request",lit "origin",lit "cancel",lit "abandon",lit "ban",lit "deliver",lit "fail"]
def validCommand (told : TransferFrame.Told) : Bool :=
  match told.command with
  | .object fields => commandTags.any (fun tag => match field fields (lit "t") with
    | some (.string text) => text = tag
    | _ => false)
  | _ => false
def isBool : Option Value → Bool
  | some (.bool _) => true
  | _ => false
/-- Null or a time, as `estimate` reads it. -/
def validFrame (frame : TransferFrame.Reply) (size : Nat) : Bool :=
  frame.commands.length ≤ 1024 && frame.commands.all validCommand && (estimate frame.next).isSome &&
    isBool frame.late &&
    isBool frame.finished &&
    (match frame.verified with
    | .null => true
    | verified => (integer (some verified)).any (· ≤ size)) &&
    frame.bytes.all (·.length ≤ size)

/-! ### What is sent is what is read -/

theorem integer_number {value : Option Value} {n : Nat} (read : integer value = some n) :
    integer (some (.number n)) = some n := by
  unfold integer at read
  split at read
  · rename_i q
    split_ifs at read with whole
    obtain ⟨den,low,high⟩ := whole
    have small : (n : Int) ≤ maxSafeInteger := by
      rw [← Option.some.inj read]
      omega
    simp [integer,small]
  · cases read
theorem time_number {value : Option Value} {q : ℚ} (read : time value = some q) : time (some (.number q)) = some q := by
  unfold time at read
  split at read
  · split_ifs at read with bounds
    cases read
    simp [time,bounds]
  · cases read
theorem estimate_value {value : Option Value} {e : Option ℚ} (read : estimate value = some e) :
    estimate (some (estimateValue e)) = some e := by
  unfold estimate at read
  split at read
  · cases read
    rfl
  · obtain ⟨q,timed,rfl⟩ := Option.map_eq_some_iff.mp read
    have same := time_number timed
    simp [estimateValue,estimate,same]
theorem hash_string {value : Option Value} {text : Text} (read : hash value = some text) :
    hash (some (.string text)) = some text := by
  unfold hash at read
  split at read
  · split_ifs at read with good
    cases read
    simp [hash,good]
  · cases read
theorem mapM_again {α β : Type} {read : α → Option β} (write : β → α) {items : List α} {values : List β}
    (again : ∀ item value, read item = some value → read (write value) = some value)
    (all : items.mapM read = some values) : (values.map write).mapM read = some values := by
  induction items generalizing values with
  | nil =>
    cases all
    rfl
  | cons item rest ih =>
    rw [List.mapM_cons] at all
    simp only [Option.bind_eq_bind,Option.bind_eq_some_iff,Option.pure_def] at all
    obtain ⟨value,first,values',others,same⟩ := all
    cases same
    simp [List.mapM_cons,again item value first,ih others]

theorem workerConfig_value {value : Option Value} {limits : Limits} {config : Config}
    (read : workerConfig value limits = some config) : workerConfig (some config.value) limits = some config := by
  unfold workerConfig at read
  split at read
  · rename_i fields
    simp only [Option.bind_eq_bind,Option.bind_eq_some_iff] at read
    obtain ⟨items,_,pieces,each,size,sized,sha256,whole,deadline,due,maxHolders,held,originReserveMs,
      reserved,peerOnly,_,exclusiveOrigin,_,same⟩ := read
    split_ifs at same with fits
    cases same
    have pieces' := mapM_again Value.string (fun _ _ h => hash_string h) each
    cases peerOnly <;> cases exclusiveOrigin
    all_goals
      unfold workerConfig Config.value
      simp only [Option.bind_eq_bind,Option.bind_eq_some_iff]
      refine ⟨_,rfl,pieces,pieces',size,integer_number sized,sha256,hash_string whole,deadline,
        time_number due,maxHolders,integer_number held,originReserveMs,time_number reserved,_,rfl,_,rfl,?_⟩
      rw [if_pos fits]
  · cases read

theorem source_value {peerOnly : Bool} {value : Option Value} {source : Source}
    (read : sourceArgument peerOnly value = some source) : sourceArgument peerOnly (some (sourceValue source)) =
      some source := by
  unfold sourceArgument at read
  split at read
  · split_ifs at read with origin
    cases read
    simp [sourceArgument,sourceValue,origin.2]
  · obtain ⟨id,numbered,rfl⟩ := Option.map_eq_some_iff.mp read
    simp [sourceArgument,sourceValue,integer_number numbered]
theorem peerRow_value {row : Value} {peer : Peer} (read : peerRow row = some peer) :
    peerRow peer.value = some peer := by
  unfold peerRow at read
  split at read
  · simp only [Option.bind_eq_bind,Option.bind_eq_some_iff] at read
    obtain ⟨id,numbered,first,began,rate,flowed,same⟩ := read
    cases same
    simp [peerRow,Peer.value,integer_number numbered,estimate_value began,estimate_value flowed]
  · cases read
theorem originArgument_value {peerOnly : Bool} {value : Option Value} {origin : Option (Option ℚ × Option ℚ)}
    (read : originArgument peerOnly value = some origin) : originArgument peerOnly (some (originValue origin)) =
      some origin := by
  unfold originArgument at read
  split_ifs at read with only absent
  · cases read
    rw [originArgument,if_pos only]
    rfl
  · obtain ⟨row,read',rfl⟩ := Option.map_eq_some_iff.mp read
    unfold originRow at read'
    split at read'
    · simp only [Option.bind_eq_bind,Option.bind_eq_some_iff] at read'
      obtain ⟨first,began,rate,flowed,same⟩ := read'
      cases same
      simp [originArgument,only,originValue,originRow,estimate_value began,estimate_value flowed]
    · cases read'
theorem orElse_estimate (e : Option ℚ) : orElse (some (estimateValue e)) .null = estimateValue e := by
  cases e <;> rfl
theorem startArguments_raw {instant : ℚ} {input : Option Value} {peerOnly : Bool} {arguments : Arguments}
    (read : startArguments instant input peerOnly = some arguments) :
    startArguments instant arguments.raw.source peerOnly = some arguments ∧ arguments.op = .start ∧
      arguments.raw.moment = some (.number instant) := by
  unfold startArguments at read
  split at read
  · simp only [Option.bind_eq_bind,Option.bind_eq_some_iff] at read
    obtain ⟨rows,_,peers,each,origin,reserved,first,began,rate,flowed,ids,_,probePeers,probes,same⟩ := read
    split_ifs at same with few
    cases same
    refine ⟨?_,rfl,rfl⟩
    unfold startArguments Arguments.raw
    simp only [Option.bind_eq_bind,Option.bind_eq_some_iff]
    refine ⟨_,rfl,peers,mapM_again Peer.value (fun _ _ h => peerRow_value h) each,origin,originArgument_value reserved,
      first,?_,rate,?_,_,rfl,probePeers,
        mapM_again (fun id : Nat => Value.number id) (fun _ _ h => integer_number h) probes,
      if_pos few⟩
    · exact (congrArg (fun v => estimate (some v)) (orElse_estimate first)).trans (estimate_value began)
    · exact (congrArg (fun v => estimate (some v)) (orElse_estimate rate)).trans (estimate_value flowed)
  · cases read
theorem workerArguments_raw {op : Op} {raw : Raw} {maxSegmentBytes : Nat} {peerOnly : Bool} {arguments : Arguments}
    (read : workerArguments op raw maxSegmentBytes peerOnly = some arguments) :
    workerArguments arguments.op arguments.raw maxSegmentBytes peerOnly = some arguments := by
  unfold workerArguments at read
  simp only [Option.bind_eq_bind,Option.bind_eq_some_iff] at read
  obtain ⟨here,timed,read⟩ := read
  have again := time_number timed
  cases op with
  | start =>
    obtain ⟨same,op,clock⟩ := startArguments_raw read
    rw [op,workerArguments,clock,again]
    exact same
  | tick =>
    cases read
    simp [workerArguments,Arguments.raw,Arguments.op,again]
  | failed =>
    simp only [Option.bind_eq_some_iff] at read
    obtain ⟨source,stems,same⟩ := read
    cases same
    simp [workerArguments,Arguments.raw,Arguments.op,again,source_value stems]
  | progress =>
    simp only [Option.bind_eq_some_iff] at read
    obtain ⟨source,stems,received,counted,same⟩ := read
    split_ifs at same with fits
    cases same
    simp [workerArguments,Arguments.raw,Arguments.op,again,source_value stems,integer_number counted,fits]
  | delivered =>
    simp only [Option.bind_eq_some_iff] at read
    obtain ⟨source,stems,read⟩ := read
    split at read
    · simp only [Option.bind_eq_some_iff] at read
      obtain ⟨first,begins,last,ends,bytes,_,same⟩ := read
      split_ifs at same with fits
      cases same
      have start : integer (field [(lit "start",.number first),(lit "end",.number last)] (lit "start")) = some first :=
        integer_number begins
      have stop : integer (field [(lit "start",.number first),(lit "end",.number last)] (lit "end")) = some last :=
        integer_number ends
      simp [workerArguments,Arguments.raw,Arguments.op,again,source_value stems,start,stop,fits]
    · cases read

end RelaySwarm.TransferWorker
