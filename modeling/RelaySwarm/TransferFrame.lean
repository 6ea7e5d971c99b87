import RelaySwarm.Commitment
import RelaySwarm.JsonBytes
import RelaySwarm.LinkFrame
import RelaySwarm.Transfer

/-!
The frame of a transfer that the core hands to the page: the length of a JSON text, the
text with the commands and the transfer's state, and behind it the object delivered. The
page reads the commands as they were written, with their ranges, and the object
(`reply_frame`); it is what tells the commands apart (`commandOf_told`).
-/
namespace RelaySwarm.TransferFrame
open Transfers Pieces Links JsonText Wire LinkFrame

/-! ### What the core writes -/

def rangeValue (range : PieceRange) : Value := .array [.number range.start,.number range.stop]
def commandValue : Command → Value
  | .request peer range =>
    .object [(lit "t",.string (lit "request")),(lit "peer",.number peer),(lit "p",rangeValue range)]
  | .fetchOrigin range => .object [(lit "t",.string (lit "origin")),(lit "p",rangeValue range)]
  | .cancel peer => .object [(lit "t",.string (lit "cancel")),(lit "peer",.number peer)]
  | .abandon peer => .object [(lit "t",.string (lit "abandon")),(lit "peer",.number peer)]
  | .ban peer => .object [(lit "t",.string (lit "ban")),(lit "peer",.number peer)]
  | .deliver _ => .object [(lit "t",.string (lit "deliver"))]
  | .fail => .object [(lit "t",.string (lit "fail"))]
/-- The payload once a command is written: a delivered object takes the place of another. -/
def payloadAfter (payload : List UInt8) : Command → List UInt8
  | .deliver object => object
  | _ => payload

/-- What is written of a transfer behind its commands. -/
structure State where
  next : Option Nat
  late : Bool
  finished : Bool
  verified : Nat
def stateOf (t : Transfer) : State := ⟨t.nextDeadline,t.late,t.finished,t.verifiedBytes⟩
def json (commands : List Command) (state : State) : Value :=
  .object [(lit "c",.array (commands.map commandValue)),(lit "next",state.next.elim .null (.number ·)),
    (lit "late",.bool state.late),(lit "finished",.bool state.finished),(lit "verified",.number state.verified)]
/-- A frame: the length of the text, the text, then the payload. -/
def frame (commands : List Command) (state : State) : List UInt8 :=
  let text := jsonBytes (json commands state)
  little 4 text.length ++ text ++ commands.foldl payloadAfter []
/-- The frame of a transfer, whose commands are drained. -/
def transferFrame (t : Transfer) : List UInt8 × Transfer :=
  let (commands,t) := t.drainCommands
  (frame commands (stateOf t),t)

/-! ### What the page reads -/

/-- `value[index]`, where none is undefined. -/
def element : Value → Nat → Option Value
  | .array items,index => items[index]?
  | .string text,index => text[index]?.map (fun unit => .string [unit])
  | .object fields,index => field fields (decimal index)
  | _,_ => none
/-- A command as the page has it, with the range of one that names pieces. -/
structure Told where
  command : Value
  range : Option (Option Value × Option Value)
/-- What a call returns; undefined is none, and null bytes are none. -/
structure Reply where
  commands : List Told
  next : Option Value
  late : Option Value
  finished : Option Value
  verified : Value
  bytes : Option (List UInt8)

/-- The range is added to a command whose `p` is true; that of null throws. -/
def readCommand : Value → Option Told
  | .null => none
  | .object fields =>
    let pieces := (field fields (lit "p")).filter Commitment.truthy
    some ⟨.object fields,pieces.map (fun p => (element p 0,element p 1))⟩
  | command => some ⟨command,none⟩
def decoded (bytes : List UInt8) : Text := utf8 (if [0xEF,0xBB,0xBF].isPrefixOf bytes then bytes.drop 3 else bytes)
/-- What a call returns of a frame; where it throws, the transfer has failed. -/
def reply (frame : List UInt8) : Option Reply := do
  let jsonLength ← getUint32 frame 0
  let state ← parse (decoded (slice frame 4 (4 + jsonLength)))
  let object := if 4 + jsonLength < frame.length then some (frame.drop (4 + jsonLength)) else none
  match state with
  | .object fields =>
    match field fields (lit "c") with
    | some (.array items) =>
      let commands ← items.mapM readCommand
      pure {
        commands,next := field fields (lit "next"),late := field fields (lit "late"),
        finished := field fields (lit "finished"),verified :=
          (field fields (lit "verified")).getD .null,bytes := object }
    | _ => none
  | _ => none

/-! ### Reading what was written -/

def rangeOf : Command → Option PieceRange
  | .request _ range => some range
  | .fetchOrigin range => some range
  | _ => none
def objectOf : Command → Option (List UInt8)
  | .deliver object => some object
  | _ => none
def delivered (commands : List Command) : Option (List UInt8) := (commands.filterMap objectOf).getLast?
/-- What the page has of a command. -/
def told (command : Command) : Told :=
  ⟨commandValue command,(rangeOf command).map (fun range => (some (.number range.start),some (.number range.stop)))⟩

def natural : Value → Option Nat
  | .number q => if q.den = 1 ∧ 0 ≤ q.num then some q.num.toNat else none
  | _ => none
def toldRange (told : Told) : Option PieceRange :=
  told.range.bind (fun range => (range.1.bind natural).bind
    (fun start => (range.2.bind natural).map (fun stop => ⟨start,stop⟩)))
/-- The command that the page goes by, with the bytes beside it. -/
def commandOf (bytes : Option (List UInt8)) (told : Told) : Option Command :=
  match told.command with
  | .object fields =>
    let peer := (field fields (lit "peer")).bind natural
    match field fields (lit "t") with
    | some (.string tag) =>
      if tag = lit "request" then peer.bind (fun peer => (toldRange told).map (fun range => .request peer range))
      else if tag = lit "origin" then (toldRange told).map (fun range => .fetchOrigin range)
      else if tag = lit "cancel" then peer.map (fun peer => .cancel peer)
      else if tag = lit "abandon" then peer.map (fun peer => .abandon peer)
      else if tag = lit "ban" then peer.map (fun peer => .ban peer)
      else if tag = lit "deliver" then bytes.map (fun object => .deliver object)
      else if tag = lit "fail" then some .fail
      else none
    | _ => none
  | _ => none

/-- The numbers of a command are below 2^53. -/
def Small : Command → Prop
  | .request peer range => peer < 2 ^ 53 ∧ range.start < 2 ^ 53 ∧ range.stop < 2 ^ 53
  | .fetchOrigin range => range.start < 2 ^ 53 ∧ range.stop < 2 ^ 53
  | .cancel peer => peer < 2 ^ 53
  | .abandon peer => peer < 2 ^ 53
  | .ban peer => peer < 2 ^ 53
  | .deliver _ => True
  | .fail => True
structure State.Small (state : State) : Prop where
  next : ∀ n ∈ state.next, n < 2 ^ 53
  verified : state.verified < 2 ^ 53

/-- A value that is written as bytes and read back. -/
def Written (value : Value) : Prop := Plain value ∧ Textual value
theorem number_written {n : Nat} (small : n < 2 ^ 53) : Written (.number n) := by
  constructor
  · simpa using Plain.number n (by simpa using small)
  · simpa using Textual.number n (by simpa using small.le)
theorem text_written {text : Text} (units : ∀ unit ∈ text, unit < 0x10000) : Written (.string text) :=
  ⟨.string text,.string units⟩
theorem array_written {items : List Value} (each : ∀ item ∈ items, Written item) : Written (.array items) :=
  ⟨.array (fun item member => (each item member).1),.array (fun item member => (each item member).2)⟩
theorem object_written {fields : List (Text × Value)} (ordered : own fields = fields)
    (keys : ∀ key ∈ fields.map (·.1), ∀ unit ∈ key, unit < 0x10000) (each : ∀ value ∈ fields.map (·.2), Written value) :
    Written (.object fields) := by
  constructor
  · exact .object (fun field member => (each _ (List.mem_map_of_mem member)).1) ordered
  · exact .object (fun field member => keys _ (List.mem_map_of_mem member))
      (fun field member => (each _ (List.mem_map_of_mem member)).2)

theorem range_written {range : PieceRange} (start : range.start < 2 ^ 53) (stop : range.stop < 2 ^ 53) :
    Written (rangeValue range) := by
  apply array_written
  simp only [List.mem_cons,List.not_mem_nil,or_false]
  rintro item (rfl | rfl)
  · exact number_written start
  · exact number_written stop
theorem command_written {command : Command} (small : Small command) : Written (commandValue command) := by
  cases command with
  | request peer range =>
    obtain ⟨peer,start,stop⟩ := small
    refine object_written rfl (by simp only [List.map_cons,List.map_nil]; decide) ?_
    simp only [List.map_cons,List.map_nil,List.mem_cons,List.not_mem_nil,or_false]
    rintro value (rfl | rfl | rfl)
    · exact text_written (by decide)
    · exact number_written peer
    · exact range_written start stop
  | fetchOrigin range =>
    obtain ⟨start,stop⟩ := small
    refine object_written rfl (by simp only [List.map_cons,List.map_nil]; decide) ?_
    simp only [List.map_cons,List.map_nil,List.mem_cons,List.not_mem_nil,or_false]
    rintro value (rfl | rfl)
    · exact text_written (by decide)
    · exact range_written start stop
  | cancel peer | abandon peer | ban peer =>
    refine object_written rfl (by simp only [List.map_cons,List.map_nil]; decide) ?_
    simp only [List.map_cons,List.map_nil,List.mem_cons,List.not_mem_nil,or_false]
    rintro value (rfl | rfl)
    · exact text_written (by decide)
    · exact number_written small
  | deliver object | fail =>
    refine object_written rfl (by simp only [List.map_cons,List.map_nil]; decide) ?_
    simp only [List.map_cons,List.map_nil,List.mem_singleton]
    rintro value rfl
    exact text_written (by decide)
theorem next_written {next : Option Nat} (small : ∀ n ∈ next, n < 2 ^ 53) : Written (next.elim .null (.number ·)) := by
  cases next with
  | none => exact ⟨.null,.null⟩
  | some n => exact number_written (small n rfl)
theorem json_written {commands : List Command} {state : State} (small : ∀ command ∈ commands, Small command)
    (counted : state.Small) :
    Written (json commands state) := by
  refine object_written rfl (by simp only [List.map_cons,List.map_nil]; decide) ?_
  simp only [List.map_cons,List.map_nil,List.mem_cons,List.not_mem_nil,or_false]
  rintro value (rfl | rfl | rfl | rfl | rfl)
  · apply array_written
    rintro item member
    obtain ⟨command,listed,rfl⟩ := List.mem_map.mp member
    exact command_written (small command listed)
  · exact next_written counted.next
  · exact ⟨.bool _,.bool _⟩
  · exact ⟨.bool _,.bool _⟩
  · exact number_written counted.verified

theorem write_brace (fields : List (Text × Value)) : ∃ rest, write (.object fields) = 123 :: rest := by
  rw [write]
  exact ⟨_,rfl⟩
theorem decoded_written {value : Value} (written : Written value) {fields : List (Text × Value)}
    (object : value = .object fields) :
    decoded (jsonBytes value) = write value := by
  obtain ⟨rest,begins⟩ := write_brace fields
  have unmarked : List.isPrefixOf [0xEF,0xBB,0xBF] (jsonBytes value) = false := by
    rw [jsonBytes,object,begins,utf8Bytes_unit (by decide)]
    rfl
  rw [decoded,if_neg (by simp [unmarked])]
  exact utf8_write written.2

theorem readCommand_value (command : Command) : readCommand (commandValue command) = some (told command) := by
  cases command <;> rfl
theorem readCommands (commands : List Command) :
    (commands.map commandValue).mapM readCommand = some (commands.map told) := by
  induction commands with
  | nil => rfl
  | cons command rest ih =>
    rw [List.map_cons,List.mapM_cons,readCommand_value,ih]
    rfl
theorem payload_delivered (commands : List Command) :
    commands.foldl payloadAfter [] = (delivered commands).getD [] := by
  induction commands using List.reverseRecOn with
  | nil => rfl
  | append_singleton rest command ih =>
    rw [List.foldl_append,List.foldl_cons,List.foldl_nil,ih,delivered,delivered,List.filterMap_append]
    cases command <;> simp [payloadAfter,objectOf]

/-- The page reads of a frame the commands and the state that were written, and the
    object that was delivered, if one was. -/
theorem reply_frame {commands : List Command} {state : State} (small : ∀ command ∈ commands, Small command)
    (counted : state.Small)
    (present : ∀ object ∈ delivered commands, object ≠ []) (short : (frame commands state).length < 2 ^ 31) :
    reply (frame commands state) = some {
      commands := commands.map told
      next := some (state.next.elim .null (.number ·))
      late := some (.bool state.late)
      finished := some (.bool state.finished)
      verified := .number state.verified
      bytes := delivered commands } := by
  have written := json_written small counted
  obtain ⟨text,layout⟩ : ∃ text, text = jsonBytes (json commands state) := ⟨_,rfl⟩
  obtain ⟨payload,carried⟩ : ∃ payload, payload = commands.foldl payloadAfter [] := ⟨_,rfl⟩
  have whole : frame commands state = little 4 text.length ++ (text ++ payload) := by
    rw [frame,← layout,← carried,List.append_assoc]
  have fits : text.length < 2 ^ 32 := by
    rw [whole] at short
    simp only [List.length_append] at short
    omega
  have length : getUint32 (frame commands state) 0 = some text.length := by
    rw [whole]
    exact getUint32_part [] (text ++ payload) fits
  have part : slice (frame commands state) 4 (4 + text.length) = text := by
    have cut := slice_part (little 4 text.length) text payload
    rw [little_length] at cut
    rw [whole,cut]
  have parsed : parse (decoded text) = some (json commands state) := by
    rw [layout,decoded_written written rfl]
    exact parse_write written.1
  have behind : (frame commands state).drop (4 + text.length) = payload := by
    rw [whole,← List.append_assoc]
    exact List.drop_left' (by simp)
  have object : (if 4 + text.length < (frame commands state).length then some payload else none) =
      delivered commands := by
    rw [payload_delivered] at carried
    rw [whole]
    cases found : delivered commands with
    | none =>
      rw [found] at carried
      simp [carried]
    | some object =>
      rw [found] at carried
      have filled := List.length_pos_iff.mpr (present object found)
      rw [if_pos (by simp [carried]; exact filled),carried]
      rfl
  rw [reply,length]
  dsimp only [Option.bind_eq_bind,Option.bind_some]
  rw [part,parsed,behind,object]
  obtain ⟨fields,listed⟩ : ∃ fields, json commands state = .object fields := ⟨_,rfl⟩
  have each : field fields (lit "c") = some (.array (commands.map commandValue)) ∧
      field fields (lit "next") = some (state.next.elim .null (.number ·)) ∧
        field fields (lit "late") = some (.bool state.late) ∧
      field fields (lit "finished") = some (.bool state.finished) ∧
        field fields (lit "verified") = some (.number state.verified) := by
    cases listed
    exact ⟨rfl,rfl,rfl,rfl,rfl⟩
  obtain ⟨instructions,next,late,finished,verified⟩ := each
  rw [listed]
  dsimp only [Option.bind_some]
  rw [instructions]
  dsimp only
  rw [readCommands,next,late,finished,verified]
  rfl

theorem natural_number (n : Nat) : natural (.number n) = some n := by simp [natural]
theorem toldRange_told (command : Command) : toldRange (told command) = rangeOf command := by
  cases command <;> simp [toldRange,told,rangeOf,natural_number]
theorem commandOf_told {bytes : Option (List UInt8)} {command : Command}
    (beside : ∀ object ∈ objectOf command, bytes = some object) :
    commandOf bytes (told command) = some command := by
  have range := toldRange_told command
  cases command with
  | request peer range' =>
    change (natural (.number peer)).bind (fun named =>
      (toldRange (told (.request peer range'))).map (fun range => Command.request named range)) = _
    rw [natural_number,range]
    rfl
  | fetchOrigin range' =>
    change (toldRange (told (.fetchOrigin range'))).map (fun range => Command.fetchOrigin range) = _
    rw [range]
    rfl
  | cancel peer =>
    change (natural (.number peer)).map (fun peer => Command.cancel peer) = _
    rw [natural_number]
    rfl
  | abandon peer =>
    change (natural (.number peer)).map (fun peer => Command.abandon peer) = _
    rw [natural_number]
    rfl
  | ban peer =>
    change (natural (.number peer)).map (fun peer => Command.ban peer) = _
    rw [natural_number]
    rfl
  | deliver object =>
    change bytes.map (fun object => Command.deliver object) = _
    rw [beside object rfl]
    rfl
  | fail => rfl
theorem commandsOf_told {bytes : Option (List UInt8)} {commands : List Command}
    (beside : ∀ object, .deliver object ∈ commands → bytes = some object) :
    (commands.map told).mapM (commandOf bytes) = some commands := by
  induction commands with
  | nil => rfl
  | cons command rest ih =>
    have own : ∀ object ∈ objectOf command, bytes = some object := by
      rintro object carries
      cases command <;> cases carries
      exact beside object List.mem_cons_self
    rw [List.map_cons,List.mapM_cons,commandOf_told own,
      ih (fun object member => beside object (List.mem_cons_of_mem _ member))]
    rfl

/-! ### The events that the page goes by -/

/-- The characters of a text; the halves of a pair are one. -/
def charsOf : Text → List Char
  | [] => []
  | [unit] => [Char.ofNat unit]
  | first :: second :: rest =>
    if high first ∧ low second then Char.ofNat (0x10000 + (first - 0xD800) * 0x400 + (second - 0xDC00)) :: charsOf rest
    else Char.ofNat first :: charsOf (second :: rest)
def stringOf (text : Text) : String := String.ofList (charsOf text)
def outcomeOf (name : Text) : Option Outcome :=
  [Outcome.payload,.none,.timeout,.abort,.abandoned,.closed,.busy,.sendError].find?
    (fun outcome => lit (Outcome.asStr outcome) = name)
def reasonOf (name : Text) : Option CloseReason := (closeReasons.find? (fun reason => lit reason.1 = name)).map (·.2)
def reportOf : Value → Option RequestReport
  | .object [(_,id),(_,.string outcome),(_,receivedBytes),(_,.bool metadataReceived),(_,.bool draining),
    (_,closeReason)] => do
    let id ← match id with
      | .null => some none
      | id => (natural id).map some
    let closeReason ← match closeReason with
      | .string name => (reasonOf name).map some
      | _ => some none
    some ⟨id,← outcomeOf outcome,← natural receivedBytes,metadataReceived,draining,closeReason⟩
  | _ => none
def keyOf : Value → Option String
  | .string text => some (stringOf text)
  | _ => none
def wholeOf : Double → Option Nat
  | .finite value => natural (.number value)
  | _ => none
/-- The event that the page goes by. -/
def eventFrom : Received → Option LinkFrame.Event
  | .resolved .nan bytes => some (.resolved none bytes)
  | .resolved id bytes => (wholeOf id).map (fun id => .resolved (some id) bytes)
  | .plain tag payload =>
    match tag,parse (utf8 payload) with
    | 1,_ => some (.sendText (stringOf (utf8 payload)))
    | 2,_ => some (.sendBinary payload)
    | 3,_ => (reasonOf (utf8 payload)).map .closed
    | 4,some report => (reportOf report).map .report
    | 6,some (.array keys) => (keys.mapM keyOf).map .haveChanged
    | 7,_ => some .scheduleChanged
    | 8,_ => some (.serveRequest (stringOf (utf8 payload)))
    | 9,_ => ((getFloat64 payload 0).bind wholeOf).map .uploadCancelled
    | 10,_ => ((getFloat64 payload 0).bind wholeOf).bind (fun received =>
      ((getFloat64 payload 8).bind wholeOf).map (fun size => .progress received size))
    | 11,some (.array [key,start,stop]) => (keyOf key).bind (fun key =>
      (natural start).bind (fun start => (natural stop).map (fun stop => .serveRange key ⟨start,stop⟩)))
    | _,_ => none
/-- The numbers of an event are below 2^53. -/
def SmallEvent : LinkFrame.Event → Prop
  | .report report => (∀ n ∈ report.id, n < 2 ^ 53) ∧ report.receivedBytes < 2 ^ 53
  | .serveRange _ range => range.start < 2 ^ 53 ∧ range.stop < 2 ^ 53
  | .uploadCancelled bytes => bytes < 2 ^ 53
  | .progress received size => received < 2 ^ 53 ∧ size < 2 ^ 53
  | _ => True

theorem charsOf_point (c : Char) (rest : Text) : charsOf (codePoint c.toNat ++ rest) = c :: charsOf rest := by
  have valid : c.toNat < 0xD800 ∨ 0xDFFF < c.toNat ∧ c.toNat < 0x110000 := c.valid
  unfold codePoint
  split_ifs with basic
  · have alone : high c.toNat = false := by
      simp only [high,Bool.and_eq_false_iff,decide_eq_false_iff_not]
      omega
    cases rest with
    | nil => simp [charsOf]
    | cons second rest => simp [charsOf,alone]
  · have upper : high (0xD800 + (c.toNat - 0x10000) / 0x400) = true := by
      simp only [high,Bool.and_eq_true,decide_eq_true_eq]
      omega
    have lower : low (0xDC00 + (c.toNat - 0x10000) % 0x400) = true := by
      simp only [low,Bool.and_eq_true,decide_eq_true_eq]
      omega
    have point : 0x10000 + (0xD800 + (c.toNat - 0x10000) / 0x400 - 0xD800) * 0x400 +
        (0xDC00 + (c.toNat - 0x10000) % 0x400 - 0xDC00) = c.toNat := by omega
    simp only [List.cons_append,List.nil_append,charsOf]
    rw [if_pos ⟨upper,lower⟩,point,Char.ofNat_toNat]
theorem stringOf_units (text : String) : stringOf (unitsOf text) = text := by
  have chars : ∀ l : List Char, charsOf (l.flatMap (fun c => codePoint c.toNat)) = l := by
    intro l
    induction l with
    | nil => rfl
    | cons c rest ih => rw [List.flatMap_cons,charsOf_point,ih]
  rw [stringOf,unitsOf,chars,String.ofList_toList]
theorem utf8_asBytes (text : String) : utf8 (asBytes text) = unitsOf text := by
  have bytes : ∀ l : List Char, utf8From .idle (l.flatMap (fun c => pointBytes c.toNat)) =
      l.flatMap (fun c => codePoint c.toNat) := by
    intro l
    induction l with
    | nil => rfl
    | cons c rest ih =>
      have valid : c.toNat < 0xD800 ∨ 0xDFFF < c.toNat ∧ c.toNat < 0x110000 := c.valid
      rw [List.flatMap_cons,utf8From_point (by omega) (by omega),ih,List.flatMap_cons]
  exact bytes text.toList
theorem units_small (text : String) : ∀ unit ∈ unitsOf text, unit < 0x10000 := by
  intro unit member
  obtain ⟨c,_,inside⟩ := List.mem_flatMap.mp member
  have valid : c.toNat < 0xD800 ∨ 0xDFFF < c.toNat ∧ c.toNat < 0x110000 := c.valid
  unfold codePoint at inside
  split_ifs at inside <;> simp only [List.mem_cons,List.not_mem_nil,or_false] at inside <;> omega
theorem parse_jsonBytes {value : Value} (written : Written value) : parse (utf8 (jsonBytes value)) = some value := by
  rw [jsonBytes,utf8_write written.2,parse_write written.1]
theorem outcomeOf_name (outcome : Outcome) : outcomeOf (lit (Outcome.asStr outcome)) = some outcome := by
  cases outcome <;> decide
theorem reasonOf_name (reason : CloseReason) : reasonOf (lit (CloseReason.asStr reason)) = some reason := by
  cases reason <;> decide
theorem reason_units (reason : CloseReason) : unitsOf (CloseReason.asStr reason) = lit (CloseReason.asStr reason) := by
  cases reason <;> decide
theorem wholeOf_number (n : Nat) : wholeOf (.finite n) = some n := natural_number n
theorem double_read (front : List UInt8) {n : Nat} (small : n < 2 ^ 53) (behind : List UInt8) :
    (getFloat64 (front ++ (little 8 (asDouble n).bits ++ behind)) front.length).bind wholeOf = some n := by
  rw [getFloat64_part front behind (whole_bits small),ofBits_whole small]
  exact wholeOf_number n
theorem report_written {report : RequestReport}
    (small : (∀ n ∈ report.id, n < 2 ^ 53) ∧ report.receivedBytes < 2 ^ 53) :
    Written (reportValue report) := by
  refine object_written rfl (by simp only [List.map_cons,List.map_nil]; decide) ?_
  have names : ∀ reason, Written (.string (lit (CloseReason.asStr reason))) :=
    fun reason => text_written (by cases reason <;> decide)
  have outcomes : Written (.string (lit (Outcome.asStr report.outcome))) :=
    text_written (by cases report.outcome <;> decide)
  simp only [List.map_cons,List.map_nil,List.forall_mem_cons,List.not_mem_nil,IsEmpty.forall_iff,implies_true,and_true]
  refine ⟨?_,outcomes,number_written small.2,⟨.bool _,.bool _⟩,⟨.bool _,.bool _⟩,?_⟩
  · cases id : report.id with
    | none => exact ⟨.null,.null⟩
    | some n => exact number_written (small.1 n id)
  · cases report.closeReason with
    | none => exact ⟨.null,.null⟩
    | some reason => exact names reason
theorem reportOf_value (report : RequestReport) : reportOf (reportValue report) = some report := by
  obtain ⟨id,outcome,receivedBytes,metadataReceived,draining,closeReason⟩ := report
  have outcome' := outcomeOf_name outcome
  cases id <;> cases closeReason <;> simp [reportOf,reportValue,natural_number,outcome',reasonOf_name]
theorem keys_read (keys : List String) : keys.mapM (keyOf ∘ fun key => Value.string (unitsOf key)) = some keys := by
  induction keys with
  | nil => rfl
  | cons key rest ih => simp [List.mapM_cons,ih,keyOf,stringOf_units]
theorem eventFrom_received {event : LinkFrame.Event} (small : SmallEvent event) :
    eventFrom (received event) = some event := by
  cases event with
  | sendText text => simp [received,eventFrom,Event.tag,Event.payload,utf8_asBytes,stringOf_units]
  | sendBinary bytes => simp [received,eventFrom,Event.tag,Event.payload]
  | closed reason => simp [received,eventFrom,Event.tag,Event.payload,utf8_asBytes,reason_units,reasonOf_name]
  | report report =>
    simp [received,eventFrom,Event.tag,Event.payload,parse_jsonBytes (report_written small),reportOf_value]
  | resolved id bytes =>
    cases id with
    | none => rfl
    | some id => simp [received,eventFrom,number,wholeOf_number]
  | haveChanged keys =>
    have written : Written (.array (keys.map (fun key => .string (unitsOf key)))) := array_written (by
      intro item member
      obtain ⟨key,_,rfl⟩ := List.mem_map.mp member
      exact text_written (units_small key))
    simp [received,eventFrom,Event.tag,Event.payload,parse_jsonBytes written,keys_read]
  | scheduleChanged => simp [received,eventFrom,Event.tag]
  | serveRequest key => simp [received,eventFrom,Event.tag,Event.payload,utf8_asBytes,stringOf_units]
  | serveRange key range =>
    have written : Written (.array [.string (unitsOf key),.number range.start,.number range.stop]) := array_written (by
      simp only [List.forall_mem_cons,List.not_mem_nil,IsEmpty.forall_iff,implies_true,and_true]
      exact ⟨text_written (units_small key),number_written small.1,number_written small.2⟩)
    simp [received,eventFrom,Event.tag,Event.payload,parse_jsonBytes written,keyOf,stringOf_units,natural_number]
  | uploadCancelled bytes =>
    have read := double_read [] small []
    rw [List.nil_append,List.append_nil,List.length_nil] at read
    change ((getFloat64 (doubles [asDouble bytes]) 0).bind wholeOf).map LinkFrame.Event.uploadCancelled = _
    rw [show doubles [asDouble bytes] = little 8 (asDouble bytes).bits by simp [doubles],read]
    rfl
  | progress got size =>
    have first := double_read [] small.1 (little 8 (asDouble size).bits)
    have second := double_read (little 8 (asDouble got).bits) small.2 []
    rw [List.nil_append,List.length_nil] at first
    rw [little_length,List.append_nil] at second
    change ((getFloat64 (doubles [asDouble got,asDouble size]) 0).bind wholeOf).bind (fun received =>
      ((getFloat64 (doubles [asDouble got,asDouble size]) 8).bind wholeOf).map
        (fun size => LinkFrame.Event.progress received size)) = _
    rw [show doubles [asDouble got,asDouble size] = little 8 (asDouble got).bits ++ little 8 (asDouble size).bits by
      simp [doubles],first,second]
    rfl

theorem delivered_filled {commands : List Command}
    (filled : ∀ object, .deliver object ∈ commands → object ≠ [] ∧ delivered commands = some object) :
    ∀ object ∈ delivered commands, object ≠ [] := by
  rintro object last
  have listed := List.mem_of_getLast? last
  obtain ⟨command,member,carries⟩ := List.mem_filterMap.mp listed
  cases command <;> cases carries
  exact (filled object member).1
/-- The frames of the core's boundary are lossless. The page reads of a link's frame the
    thirteen numbers and the events that were written, and its reading ends where the
    frame does; of a transfer's frame it has the commands with their ranges, the state and
    the object delivered, null if there was none, and these are the core's commands. Each
    event that the page reads is the core's, and what a link or a transfer hands over is
    its own header and events, or its commands. -/
theorem frames_lossless :
    (∀ (header : Header) (events : List LinkFrame.Event), header.Small →
      (∀ id bytes, .resolved (some id) bytes ∈ events → id < 2 ^ 53) →
      (LinkFrame.frame header events).length < 2 ^ 31 →
      readFrame (LinkFrame.frame header events) =
        some (header.values,events.map received,(LinkFrame.frame header events).length) ∧
      readLinkFrame (LinkFrame.frame header events) = some (header.values,events.map received)) ∧
    (∀ (commands : List Command) (state : State), (∀ command ∈ commands, Small command) → state.Small →
      (∀ object, .deliver object ∈ commands → object ≠ [] ∧ delivered commands = some object) →
      (frame commands state).length < 2 ^ 31 →
      reply (frame commands state) = some {
        commands := commands.map told
        next := some (state.next.elim .null (.number ·))
        late := some (.bool state.late)
        finished := some (.bool state.finished)
        verified := .number state.verified
        bytes := delivered commands } ∧
      (commands.map told).mapM (commandOf (delivered commands)) = some commands) ∧
    (∀ event, SmallEvent event → eventFrom (received event) = some event) ∧
    (∀ (link : Link) (request : Option Nat), (headerOf link request).Small →
      (∀ id bytes, .resolved (some id) bytes ∈ link.events.map eventOf → id < 2 ^ 53) →
      (linkFrame link request).1.length < 2 ^ 31 →
      readLinkFrame (linkFrame link request).1 =
        some ((headerOf link request).values,(link.events.map eventOf).map received)) ∧
    ∀ t : Transfer, (∀ command ∈ t.commands, Small command) → (stateOf t).Small →
      (∀ object, .deliver object ∈ t.commands → object ≠ [] ∧ delivered t.commands = some object) →
      (transferFrame t).1.length < 2 ^ 31 →
      (reply (transferFrame t).1).bind (fun reply => reply.commands.mapM (commandOf reply.bytes)) =
        some t.commands := by
  have links : ∀ (header : Header) (events : List LinkFrame.Event), header.Small →
      (∀ id bytes, .resolved (some id) bytes ∈ events → id < 2 ^ 53) → (LinkFrame.frame header events).length < 2 ^ 31 →
      readFrame (LinkFrame.frame header events) =
        some (header.values,events.map received,(LinkFrame.frame header events).length) ∧
      readLinkFrame (LinkFrame.frame header events) = some (header.values,events.map received) := by
    intro header events small ids short
    have read := readFrame_frame small ids short
    refine ⟨read,?_⟩
    rw [readLinkFrame,read]
    rfl
  refine ⟨links,?_,fun _ => eventFrom_received,fun link request small ids short => (links _ _ small ids short).2,?_⟩
  · intro commands state small counted filled short
    exact ⟨reply_frame small counted (delivered_filled filled) short,
      commandsOf_told (fun object member => (filled object member).2)⟩
  · intro t small counted filled short
    have read : reply (transferFrame t).1 = _ :=
      @reply_frame t.commands (stateOf t) small counted (delivered_filled filled) short
    rw [read]
    exact commandsOf_told (fun object member => (filled object member).2)
/-- Events and commands of several kinds. -/
theorem frames_lossless_mixed :
    readFrame (LinkFrame.frame ⟨1,false,true,true,2,10,20,5,6,7,none,some 3,false⟩
        [.sendText "h\u00e9",.resolved (some 3) (some []),.resolved none none,.closed .rotation,
          .serveRange "k" ⟨1,2⟩]) =
      some (Header.values ⟨1,false,true,true,2,10,20,5,6,7,none,some 3,false⟩,
        [.sendText "h\u00e9",.resolved (some 3) (some []),.resolved none none,.closed .rotation,
          .serveRange "k" ⟨1,2⟩].map received,167) ∧
    (reply (frame [.request 4 ⟨0,2⟩,.deliver [1,2],.cancel 5] ⟨some 9,true,false,7⟩)).bind (fun reply =>
      reply.commands.mapM (commandOf reply.bytes)) = some [.request 4 ⟨0,2⟩,.deliver [1,2],.cancel 5] := by
  constructor
  · refine (frames_lossless.1 _ _ ?_ ?_ ?_).1.trans ?_
    · constructor <;> decide
    · simp
    · decide +kernel
    · decide +kernel
  · have whole := frames_lossless.2.1 [.request 4 ⟨0,2⟩,.deliver [1,2],.cancel 5] ⟨some 9,true,false,7⟩ ?_ ?_ ?_ ?_
    · rw [whole.1]
      exact whole.2
    · simp [Small]
    · constructor <;> decide
    · simp [delivered,objectOf]
      rfl
    · decide +kernel
end RelaySwarm.TransferFrame
