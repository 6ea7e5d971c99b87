import RelaySwarm.JsonBytes

/-!
A publisher's identity: its secret key, the stream event that authorises what it signs,
and its swarm. The state text of a fresh identity is read back as that identity
(`decode_encode`). Keys, hashes and signatures are a parameter.
-/
namespace RelaySwarm.Publisher
open JsonText

/-! ### Events -/

structure Template where
  kind : ℚ
  createdAt : ℚ
  tags : List (List Text)
  content : Text
structure Event extends Template where
  pubkey : Text
  id : Text
  sig : Text
/-- Keys, hashes and signatures, as lower-case hex texts. -/
structure Crypto where
  digest : Text → Text
  getPublicKey : Text → Text
  getEventHash : Template → Text → Text
  sign : Text → Text → Text
  verifyEvent : Event → Bool

def hexUnit (unit : Nat) : Bool := digit unit || (97 ≤ unit && unit ≤ 102)
def hexText (length : Nat) (text : Text) : Bool := text.length = length && text.all hexUnit
def finalizeEvent (crypto : Crypto) (template : Template) (secretKey : Text) : Event :=
  let pubkey := crypto.getPublicKey secretKey
  let id := crypto.getEventHash template pubkey
  { template with pubkey := pubkey, id := id, sig := crypto.sign id secretKey }
/-- What is relied on: everything is hex of its length, and a finished event verifies. -/
structure Crypto.Sound (crypto : Crypto) : Prop where
  digest : ∀ text, hexText 64 (crypto.digest text) = true
  publicKey : ∀ secretKey, hexText 64 secretKey = true → hexText 64 (crypto.getPublicKey secretKey) = true
  hash : ∀ template pubkey, hexText 64 (crypto.getEventHash template pubkey) = true
  sign : ∀ id secretKey, hexText 128 (crypto.sign id secretKey) = true
  verified : ∀ template secretKey, hexText 64 secretKey = true →
    crypto.verifyEvent (finalizeEvent crypto template secretKey) = true

def Event.value (event : Event) : Value :=
  .object [(lit "kind",.number event.kind),(lit "created_at",.number event.createdAt),
    (lit "tags",.array (event.tags.map (fun tag => .array (tag.map .string)))),(lit "content",.string event.content),
    (lit "pubkey",.string event.pubkey),(lit "id",.string event.id),(lit "sig",.string event.sig)]
/-- A property of a value; only an object has any. -/
def property (value : Value) (key : Text) : Option Value :=
  match value with
  | .object fields => field fields key
  | _ => none
def textOf : Value → Option Text
  | .string text => some text
  | _ => none
def numberOf : Value → Option ℚ
  | .number value => some value
  | _ => none
def itemsOf : Value → Option (List Value)
  | .array items => some items
  | _ => none
/-- The event that a value stands for; an event that is none has no hash. -/
def eventOf (value : Value) : Option Event := do
  let kind ← (property value (lit "kind")).bind numberOf
  let createdAt ← (property value (lit "created_at")).bind numberOf
  let rows ← (property value (lit "tags")).bind itemsOf
  let tags ← rows.mapM (fun row => (itemsOf row).bind (·.mapM textOf))
  let content ← (property value (lit "content")).bind textOf
  let pubkey ← (property value (lit "pubkey")).bind textOf
  guard (hexText 64 pubkey = true)
  let id ← (property value (lit "id")).bind textOf
  let sig ← (property value (lit "sig")).bind textOf
  return { kind := kind, createdAt := createdAt, tags := tags, content := content, pubkey := pubkey, id := id, sig := sig }

/-- The one value of a tag. -/
def tagged (event : Event) (name : Text) : Option Text :=
  match event.tags.filter (fun tag => tag.head? = some name) with
  | [[_,value]] => some value
  | _ => none
def maxEventBytes : Nat := 16 * 1024
def bounded (event : Value) : Bool := (utf8Bytes (write event)).length ≤ maxEventBytes
/-- A verdict that was kept is the one for the same hash, key and signature. -/
def validSignature (crypto : Crypto) (event : Event) : Bool :=
  crypto.getEventHash event.toTemplate event.pubkey = event.id && crypto.verifyEvent event
def redistributes (event : Event) : Bool :=
  event.tags.any (fun tag => tag = [lit "relayswarm",lit "redistribute",lit "1"])
def streamKind : ℚ := 30311
def validStreamAuthorisation (crypto : Crypto) (value : Value) : Bool :=
  match eventOf value with
  | none => false
  | some event =>
    event.kind = streamKind && bounded value && validSignature crypto event && (tagged event (lit "d")).isSome &&
      redistributes event

/-! ### Identities -/

def publisherSwarmId (text : Text) : Bool := 8 ≤ text.length && text.length ≤ 128
/-- What a caller asks for, checked before any file is touched: the manifest's path, and
    a swarm if it names one. -/
structure Options where
  manifestPath : Text
  swarmId : Option Text
  path_units : ∀ unit ∈ manifestPath, unit < 0x10000
  swarm_units : ∀ id ∈ swarmId, ∀ unit ∈ id, unit < 0x10000
  swarm_valid : ∀ id ∈ swarmId, publisherSwarmId id = true
structure Identity where
  secretKey : Text
  streamEvent : Value
  swarmId : Text
inductive Failure where
  | missing
  | links
  | notPrivate
  | changed
  | unreadable
  | mismatch
  | authorisation
  | swarm
  | otherSwarm
  | unsafeLoad (cause : Failure)
deriving DecidableEq
def Failure.message : Failure → String
  | .missing => "ENOENT: no such file or directory"
  | .links => "Publisher state must have a single link."
  | .notPrivate => "Publisher state must be a private, owner-only regular file."
  | .changed => "Publisher state changed during reading."
  | .unreadable => "Invalid publisher state."
  | .mismatch => "Invalid publisher state or manifest mismatch."
  | .authorisation => "Invalid publisher state authorisation."
  | .swarm => "Invalid swarm id."
  | .otherSwarm => "Publisher state swarm mismatch."
  | .unsafeLoad _ => "Cannot safely load publisher state."

def publisherStreamEvent (crypto : Crypto) (secretKey manifestPath : Text) (seconds : Int) : Event :=
  finalizeEvent crypto
    { kind := streamKind, createdAt := seconds
      tags := [[lit "d",(crypto.digest manifestPath).take 24],[lit "relayswarm",lit "redistribute",lit "1"]]
      content := lit "RelaySwarm experimental publisher" } secretKey
def validatePublisherStreamEvent (crypto : Crypto) (value : Value) (secretKey manifestPath : Text) : Bool :=
  match eventOf value with
  | none => false
  | some event => validStreamAuthorisation crypto value && event.pubkey = crypto.getPublicKey secretKey &&
      match event.tags.filter (fun tag => tag.head? = some (lit "d")) with
      | [tag] => tag[1]? = some ((crypto.digest manifestPath).take 24)
      | _ => false

/-- A fresh identity; the swarm is named after the stream event unless the caller names it. -/
def newIdentity (crypto : Crypto) (options : Options) (secretKey : Text) (seconds : Int) : Identity :=
  let streamEvent := publisherStreamEvent crypto secretKey options.manifestPath seconds
  ⟨secretKey,streamEvent.value,options.swarmId.getD (lit "publisher-" ++ streamEvent.id.take 32)⟩
def Identity.value (identity : Identity) (manifestPath : Text) : Value :=
  .object [(lit "v",.number 1),(lit "manifest",.string manifestPath),(lit "secretKey",.string identity.secretKey),
    (lit "streamEvent",identity.streamEvent),(lit "swarmId",.string identity.swarmId)]
def decodeState (crypto : Crypto) (options : Options) (text : Text) : Except Failure Identity :=
  match parse text with
  | none => .error .unreadable
  | some state =>
    match (property state (lit "v")).bind numberOf,(property state (lit "manifest")).bind textOf,
      (property state (lit "secretKey")).bind textOf with
    | some v,some manifest,some secretKey =>
      if v ≠ 1 ∨ manifest ≠ options.manifestPath ∨ hexText 64 secretKey = false then .error .mismatch
      else
        match property state (lit "streamEvent") with
        | none => .error .authorisation
        | some streamEvent =>
          if validatePublisherStreamEvent crypto streamEvent secretKey options.manifestPath = false
            then .error .authorisation
          else
            match (property state (lit "swarmId")).bind textOf with
            | none => .error .swarm
            | some swarmId =>
              if publisherSwarmId swarmId = false then .error .swarm
              else if options.swarmId.any (· ≠ swarmId) then .error .otherSwarm
              else .ok ⟨secretKey,streamEvent,swarmId⟩
    | _,_,_ => .error .mismatch

/-! ### A fresh identity is read back -/

theorem hexText_unit {length : Nat} {text : Text} (hex : hexText length text = true) :
    text.length = length ∧ ∀ unit ∈ text, 48 ≤ unit ∧ unit ≤ 102 ∧ unit ≠ 92 := by
  simp only [hexText,hexUnit,Bool.and_eq_true,decide_eq_true_eq,List.all_eq_true,Bool.or_eq_true,digit] at hex
  refine ⟨hex.1,fun unit member => ?_⟩
  have inside := hex.2 unit member
  omega
theorem hexText_small {length : Nat} {text : Text} (hex : hexText length text = true) :
    ∀ unit ∈ text, unit < 0x10000 := by
  intro unit member
  have inside := (hexText_unit hex).2 unit member
  omega
theorem hexText_printed {length : Nat} {text : Text} (hex : hexText length text = true) : Printed text := by
  intro unit member
  have inside := (hexText_unit hex).2 unit member
  omega
theorem lit_small {text : String} (ascii : Ascii (lit text)) : ∀ unit ∈ lit text, unit < 0x10000 := by
  intro unit member
  have inside := ascii unit member
  omega
theorem mapM_texts (texts : List Text) : (texts.map Value.string).mapM textOf = some texts := by
  induction texts with
  | nil => rfl
  | cons text rest ih =>
    rw [List.map_cons,List.mapM_cons,ih]
    rfl
theorem mapM_rows (tags : List (List Text)) : (tags.map (fun tag => Value.array (tag.map .string))).mapM
    (fun row => (itemsOf row).bind (·.mapM textOf)) = some tags := by
  induction tags with
  | nil => rfl
  | cons tag rest ih =>
    have first : (itemsOf (.array (tag.map .string))).bind (·.mapM textOf) = some tag := mapM_texts tag
    rw [List.map_cons,List.mapM_cons,ih,first]
    rfl
theorem eventOf_value {event : Event} (hex : hexText 64 event.pubkey = true) : eventOf event.value = some event := by
  have kind : (property event.value (lit "kind")).bind numberOf = some event.kind := rfl
  have createdAt : (property event.value (lit "created_at")).bind numberOf = some event.createdAt := rfl
  have rows : (property event.value (lit "tags")).bind itemsOf =
      some (event.tags.map (fun tag => Value.array (tag.map .string))) := rfl
  have content : (property event.value (lit "content")).bind textOf = some event.content := rfl
  have pubkey : (property event.value (lit "pubkey")).bind textOf = some event.pubkey := rfl
  have id : (property event.value (lit "id")).bind textOf = some event.id := rfl
  have sig : (property event.value (lit "sig")).bind textOf = some event.sig := rfl
  unfold eventOf
  simp only [kind,createdAt,rows,content,pubkey,id,sig,Option.bind_eq_bind,Option.bind_some,mapM_rows,hex,guard,if_true]
  rfl

section
variable {crypto : Crypto} (sound : crypto.Sound) (options : Options) {secretKey : Text}
    (secret : hexText 64 secretKey = true)
  {seconds : Int} (safe : seconds.natAbs < 2 ^ 53)
include sound secret safe

theorem stream_short : Short (publisherStreamEvent crypto secretKey options.manifestPath seconds).value 600 := by
  have digest := sound.digest options.manifestPath
  have cut : Printed ((crypto.digest options.manifestPath).take 24) :=
    fun unit member => hexText_printed digest unit (List.mem_of_mem_take member)
  have tag :
      ∀ text ∈ [lit "d",(crypto.digest options.manifestPath).take 24,lit "relayswarm",lit "redistribute",lit "1"],
      Short (.string text) 26 := by
    intro text inside
    simp only [List.mem_cons,List.not_mem_nil,or_false] at inside
    rcases inside with rfl | rfl | rfl | rfl | rfl
    · exact (Short.printed (by decide)).within rfl
    · refine (Short.printed cut).within ?_
      rw [List.length_take,(hexText_unit digest).1]
      rfl
    all_goals exact (Short.printed (by decide)).within rfl
  have row :
      ∀ row ∈ [[lit "d",(crypto.digest options.manifestPath).take 24],[lit "relayswarm",lit "redistribute",lit "1"]],
      Short (.array (row.map .string)) 82 := by
    intro row inside
    have part :
        row.Subset [lit "d",(crypto.digest options.manifestPath).take 24,lit "relayswarm",lit "redistribute",lit "1"] ∧
        row.length ≤ 3 := by
      rcases List.mem_pair.mp inside with rfl | rfl
      · exact ⟨by intro text; simp; tauto,by simp⟩
      · exact ⟨by intro text; simp; tauto,by simp⟩
    exact Short.rows (fun text member => tag text (part.1 member)) part.2 (by omega : 1 ≤ 3)
  have tags := Short.rows row (by simp : _ ≤ 2) (by omega : 1 ≤ 2)
  have pubkey := Short.printed (hexText_printed (sound.publicKey secretKey secret))
  have kind : Short (.number ((30311 : Int) : ℚ)) 5 :=
    Short.number ⟨writeNumber_ascii (by decide),by
      rw [writeNumber_whole (by decide)]
      decide⟩
  have createdAt : Short (.number (seconds : ℚ)) 17 := by
    refine Short.number ⟨writeNumber_ascii (by omega),?_⟩
    have digits : (decimal seconds.natAbs).length ≤ 16 := decimal_length (by omega) (by omega)
    rw [writeNumber_whole (by omega)]
    split
    · simp only [List.length_append,List.length_singleton]
      omega
    · simp only [List.nil_append]
      omega
  have object :=
    Short.object [((lit "kind",.number ((30311 : Int) : ℚ)),14),((lit "created_at",.number (seconds : ℚ)),32),
    ((lit "tags",.array ([[lit "d",(crypto.digest options.manifestPath).take 24],
      [lit "relayswarm",lit "redistribute",lit "1"]].map (fun tag => .array (tag.map .string)))),176),
    ((lit "content",.string (lit "RelaySwarm experimental publisher")),50),
    ((lit "pubkey",.string (crypto.getPublicKey secretKey)),80),
    ((lit "id",.string (publisherStreamEvent crypto secretKey options.manifestPath seconds).id),76),
    ((lit "sig",.string (publisherStreamEvent crypto secretKey options.manifestPath seconds).sig),140)] (by
    simp only [List.forall_mem_cons]
    refine ⟨kind.column (by decide),createdAt.column (by decide),tags.column (by decide),
      (Short.printed (by decide)).column (by decide),
      pubkey.column ⟨by decide,?_⟩,(Short.printed (hexText_printed (sound.hash _ _))).column ⟨by decide,?_⟩,
      (Short.printed (hexText_printed (sound.sign _ _))).column ⟨by decide,?_⟩,by simp⟩
    · rw [(hexText_unit (sound.publicKey secretKey secret)).1]
      decide
    · rw [(hexText_unit (sound.hash _ _)).1]
      decide
    · rw [(hexText_unit (sound.sign _ _)).1]
      decide)
  exact object.within (by simp)
omit sound secret in
theorem stream_plain : Plain (publisherStreamEvent crypto secretKey options.manifestPath seconds).value := by
  refine .object (fun part inside => ?_) rfl
  simp only [List.mem_cons,List.not_mem_nil,or_false] at inside
  rcases inside with rfl | rfl | rfl | rfl | rfl | rfl | rfl
  · exact .number 30311 (by decide)
  · exact .number seconds safe
  · refine .array fun row member => ?_
    obtain ⟨tag,_,rfl⟩ := List.mem_map.mp member
    refine .array fun item member' => ?_
    obtain ⟨text,_,rfl⟩ := List.mem_map.mp member'
    exact .string text
  all_goals exact .string _
theorem stream_textual : Textual (publisherStreamEvent crypto secretKey options.manifestPath seconds).value := by
  have digest := hexText_small (sound.digest options.manifestPath)
  refine .object (fun part inside => ?_) (fun part inside => ?_)
  · simp only [List.mem_cons,List.not_mem_nil,or_false] at inside
    rcases inside with rfl | rfl | rfl | rfl | rfl | rfl | rfl
    all_goals exact lit_small (by decide)
  · simp only [List.mem_cons,List.not_mem_nil,or_false] at inside
    rcases inside with rfl | rfl | rfl | rfl | rfl | rfl | rfl
    · exact .number 30311 (by decide)
    · exact .number seconds safe.le
    · refine .array fun row member => ?_
      obtain ⟨tag,listed,rfl⟩ := List.mem_map.mp member
      refine .array fun item member' => ?_
      obtain ⟨text,held,rfl⟩ := List.mem_map.mp member'
      refine .string ?_
      rcases List.mem_pair.mp listed with rfl | rfl
      · rcases List.mem_pair.mp held with rfl | rfl
        · exact lit_small (by decide)
        · exact fun unit member => digest unit (List.mem_of_mem_take member)
      · simp only [List.mem_cons,List.not_mem_nil,or_false] at held
        rcases held with rfl | rfl | rfl
        all_goals exact lit_small (by decide)
    · exact .string (lit_small (by decide))
    · exact .string (hexText_small (sound.publicKey secretKey secret))
    · exact .string (hexText_small (sound.hash _ _))
    · exact .string (hexText_small (sound.sign _ _))
theorem stream_valid :
    validatePublisherStreamEvent crypto (publisherStreamEvent crypto secretKey options.manifestPath seconds).value
    secretKey options.manifestPath = true := by
  have hex := sound.publicKey secretKey secret
  have event : eventOf (publisherStreamEvent crypto secretKey options.manifestPath seconds).value =
      some (publisherStreamEvent crypto secretKey options.manifestPath seconds) := eventOf_value hex
  have short := stream_short sound options secret safe
  have small : bounded (publisherStreamEvent crypto secretKey options.manifestPath seconds).value = true := by
    unfold bounded
    rw [decide_eq_true_eq,utf8Bytes_length _ short.ascii]
    exact le_trans short.length (by decide)
  have signed : validSignature crypto (publisherStreamEvent crypto secretKey options.manifestPath seconds) = true := by
    unfold validSignature
    rw [Bool.and_eq_true,decide_eq_true_eq]
    exact ⟨rfl,sound.verified _ secretKey secret⟩
  have authorised : validStreamAuthorisation crypto
      (publisherStreamEvent crypto secretKey options.manifestPath seconds).value = true := by
    unfold validStreamAuthorisation
    rw [event]
    simp only [small,signed,Bool.and_true,Bool.and_eq_true,decide_eq_true_eq]
    exact ⟨⟨rfl,rfl⟩,rfl⟩
  unfold validatePublisherStreamEvent
  rw [event]
  simp only [authorised,Bool.true_and,Bool.and_eq_true,decide_eq_true_eq]
  refine ⟨rfl,?_⟩
  change decide (some ((crypto.digest options.manifestPath).take 24) =
    some ((crypto.digest options.manifestPath).take 24)) = true
  exact decide_eq_true rfl

omit secret safe in
theorem identity_swarm : publisherSwarmId (newIdentity crypto options secretKey seconds).swarmId = true ∧
    ∀ unit ∈ (newIdentity crypto options secretKey seconds).swarmId, unit < 0x10000 := by
  unfold newIdentity
  dsimp only
  cases named : options.swarmId with
  | some id => exact ⟨options.swarm_valid id named,options.swarm_units id named⟩
  | none =>
    have hash := sound.hash (publisherStreamEvent crypto secretKey options.manifestPath seconds).toTemplate
      (crypto.getPublicKey secretKey)
    have short : ((publisherStreamEvent crypto secretKey options.manifestPath seconds).id.take 32).length = 32 := by
      rw [List.length_take]
      exact congrArg (min 32) (hexText_unit hash).1
    constructor
    · simp only [Option.getD_none,publisherSwarmId,List.length_append,short]
      rfl
    · intro unit member
      rcases List.mem_append.mp member with fixed | drawn
      · exact lit_small (by decide) unit fixed
      · exact hexText_small hash unit (List.mem_of_mem_take drawn)
theorem decode_encode : decodeState crypto options
    (utf8 (utf8Bytes (write ((newIdentity crypto options secretKey seconds).value options.manifestPath)))) =
      .ok (newIdentity crypto options secretKey seconds) := by
  obtain ⟨valid,units⟩ := identity_swarm sound options
  have textual : Textual ((newIdentity crypto options secretKey seconds).value options.manifestPath) := by
    refine .object (fun part inside => ?_) (fun part inside => ?_)
    · simp only [List.mem_cons,List.not_mem_nil,or_false] at inside
      rcases inside with rfl | rfl | rfl | rfl | rfl
      all_goals exact lit_small (by decide)
    · simp only [List.mem_cons,List.not_mem_nil,or_false] at inside
      rcases inside with rfl | rfl | rfl | rfl | rfl
      · exact .number 1 (by decide)
      · exact .string options.path_units
      · exact .string (hexText_small secret)
      · exact stream_textual sound options secret safe
      · exact .string units
  have plain : Plain ((newIdentity crypto options secretKey seconds).value options.manifestPath) := by
    refine .object (fun part inside => ?_) rfl
    simp only [List.mem_cons,List.not_mem_nil,or_false] at inside
    rcases inside with rfl | rfl | rfl | rfl | rfl
    · exact .number 1 (by decide)
    · exact .string _
    · exact .string _
    · exact stream_plain options safe
    · exact .string _
  have named : options.swarmId.any (fun id => decide (id ≠ (newIdentity crypto options secretKey seconds).swarmId)) =
      false := by
    unfold newIdentity
    cases held : options.swarmId with
    | none => rfl
    | some id => simp
  have streamed := stream_valid sound options secret safe
  rw [utf8_write textual]
  unfold decodeState
  rw [parse_write plain]
  have v : (property ((newIdentity crypto options secretKey seconds).value options.manifestPath) (lit "v")).bind
      numberOf = some 1 := rfl
  have manifest : (property ((newIdentity crypto options secretKey seconds).value options.manifestPath)
      (lit "manifest")).bind textOf =
    some options.manifestPath := rfl
  have key : (property ((newIdentity crypto options secretKey seconds).value options.manifestPath)
      (lit "secretKey")).bind textOf =
    some secretKey := rfl
  have event :
      property ((newIdentity crypto options secretKey seconds).value options.manifestPath) (lit "streamEvent") =
    some (publisherStreamEvent crypto secretKey options.manifestPath seconds).value := rfl
  have swarm : (property ((newIdentity crypto options secretKey seconds).value options.manifestPath)
      (lit "swarmId")).bind textOf =
    some (newIdentity crypto options secretKey seconds).swarmId := rfl
  simp only [v,manifest,key,event,swarm,secret,streamed,valid,named,ne_eq,not_true_eq_false,Bool.true_eq_false,
    or_self,if_false,Bool.false_eq_true]
  rfl

end

end RelaySwarm.Publisher
