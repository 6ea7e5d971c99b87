import RelaySwarm.Link
import RelaySwarm.JsonLength

/-!
What a link knows of the keys its remote holds. Only a HAVE message changes it
(`step_have`, `handleText_have`); the text of a HAVE message of keys in hex is short
enough to be read as long as it names few of them.
-/
namespace RelaySwarm.Links
open Script Pieces

/-! ### Everything else leaves the keys -/

section
variable (link : Link)

@[simp] theorem emit_have (event : LinkEvent) : (link.emit event).haves = link.haves := rfl
@[simp] theorem atTime_have (now : Nat) : (link.atTime now).haves = link.haves := rfl
@[simp] theorem release_have : link.release.haves = link.haves := rfl
@[simp] theorem vacate_have : link.vacate.haves = link.haves := rfl
@[simp] theorem shut_have (reason : CloseReason) : (link.shut reason).haves = link.haves := rfl
@[simp] theorem sendText_have (message : Message) : (link.sendText message).haves = link.haves := by
  unfold Link.sendText
  split <;> rfl
@[simp] theorem finish_have (bytes : Option (List UInt8)) (outcome : Option Outcome) (reportNow : Bool) :
    (link.finish bytes outcome reportNow).haves = link.haves := by
  unfold Link.finish
  split <;> rfl
@[simp] theorem startNextFrom_have (queue : List Upload) : ∀ link : Link, (startNextFrom queue link).haves =
  link.haves := by
  induction queue with
  | nil => intro link; rfl
  | cons upload rest ih =>
    intro link
    unfold startNextFrom
    split
    · rfl
    · split
      · rw [ih]
        simp
      · split
        · rw [ih]
          simp
        · rfl
@[simp] theorem finishUpload_have : link.finishUpload.haves = link.haves := startNextFrom_have _ _
@[simp] theorem endChunks_have (now : Nat) (upload : Upload) (bytes : List UInt8) (sent : Nat) :
    (link.endChunks now upload bytes sent).haves = link.haves := by
  unfold Link.endChunks
  dsimp only
  rw [finishUpload_have,sendText_have]
  split <;> rfl
@[simp] theorem sendChunksFrom_have (now : Nat) (upload : Upload) (bytes : List UInt8) (left : Nat) :
    ∀ (sent : Nat) (resumed : Bool) (link : Link), (sendChunksFrom now upload bytes left sent resumed link).haves =
      link.haves := by
  induction left with
  | zero => intro sent _ link; exact endChunks_have link now upload bytes sent
  | succ left ih =>
    intro sent resumed link
    unfold sendChunksFrom
    split
    · exact endChunks_have link now upload bytes sent
    · split
      · exact finishUpload_have link
      · split
        · rfl
        · split
          · exact endChunks_have link now upload bytes sent
          · exact ih _ false _
@[simp] theorem decline_have (upload : Upload) : (link.decline upload).haves = link.haves :=
  (finishUpload_have _).trans (sendText_have link _)
@[simp] theorem respond_have (now : Nat) (upload : Upload) (bytes : Option (List UInt8))
  (rangeObjectSize : Option Nat) :
    (link.respond now upload bytes rangeObjectSize).haves = link.haves := by
  unfold Link.respond
  split
  · exact decline_have link upload
  · split
    · exact decline_have _ upload
    · split
      · exact finishUpload_have link
      · exact (sendChunksFrom_have now upload _ _ 0 false _).trans (sendText_have link _)
@[simp] theorem serveResponseInner_have (now : Nat) (bytes : Option (List UInt8)) (rangeObjectSize : Option Nat) :
    (link.serveResponseInner now bytes rangeObjectSize).haves = link.haves := by
  unfold Link.serveResponseInner
  split
  · exact respond_have _ now _ bytes rangeObjectSize
  · rfl
@[simp] theorem resume_have (now : Nat) : (link.resume now).haves = link.haves := by
  unfold Link.resume
  split
  · exact sendChunksFrom_have now _ _ _ _ true _
  · rfl
@[simp] theorem stopUpload_have : link.stopUpload.haves = link.haves := by
  unfold Link.stopUpload
  split
  · exact finishUpload_have _
  · rfl
@[simp] theorem close_have (reason : CloseReason) : (link.close reason).haves = link.haves := by
  unfold Link.close
  split
  · rfl
  · dsimp only
    rw [stopUpload_have,emit_have,finish_have,shut_have]
@[simp] theorem giveUp_have (reason : CloseReason) (pending : Pending) (outcome : Outcome) :
    (link.giveUp reason pending outcome).haves = link.haves := by
  unfold Link.giveUp
  dsimp only
  split
  · rw [close_have,finish_have]
  · rw [emit_have,close_have,finish_have]
@[simp] theorem drain_have (now : Nat) (reason : CloseReason) (pending : Pending) (outcome : Outcome) :
    (link.drain now reason pending outcome).haves = link.haves := by
  unfold Link.drain
  dsimp only
  rw [sendText_have,emit_have,emit_have]
@[simp] theorem abandon_have (now : Nat) (reason : CloseReason) (abandoned : Bool) :
    (link.abandon now reason abandoned).haves = link.haves := by
  unfold Link.abandon
  split
  · split
    · exact close_have link reason
    · rfl
  · split
    · exact giveUp_have link reason _ _
    · exact drain_have link now reason _ _
@[simp] theorem refuse_have : link.refuse.haves = link.haves := rfl
@[simp] theorem startRequest_have (now : Nat) (key : String) (timeoutMs : Nat) (expectedSize : Option Nat)
  (range : Option PieceRange) :
    (link.startRequest now key timeoutMs expectedSize range).2.haves = link.haves := by
  unfold Link.startRequest
  split
  · rfl
  · dsimp only
    split
    · exact finish_have _ _ _ _
    · exact sendText_have _ _
@[simp] theorem abort_have (now id : Nat) (abandoned : Bool) : (link.abort now id abandoned).haves = link.haves := by
  unfold Link.abort
  split
  · split
    · exact abandon_have _ _ _ _
    · rfl
  · rfl
@[simp] theorem requestTimer_have (now : Nat) : (link.requestTimer now).haves = link.haves := by
  unfold Link.requestTimer
  split
  · split
    · exact close_have _ _
    · exact abandon_have _ _ _ _
  · rfl
@[simp] theorem uploadTimer_have (now : Nat) : (link.uploadTimer now).haves = link.haves := by
  unfold Link.uploadTimer
  rw [finishUpload_have,close_have,vacate_have,atTime_have]
@[simp] theorem fire_have (now : Nat) : (link.fire now).haves = link.haves := by
  unfold Link.fire
  split
  · split
    · exact requestTimer_have _ _
    · exact uploadTimer_have _ _
  · exact requestTimer_have _ _
  · exact uploadTimer_have _ _
  · rfl
@[simp] theorem onWant_have (message : Fields) : (link.onWant message).haves = link.haves := by
  unfold Link.onWant
  split
  · split
    · exact close_have link _
    · split
      · exact close_have link _
      · exact startNextFrom_have _ _
  · rfl
@[simp] theorem onCancel_have (now : Nat) (message : Fields) : (link.onCancel now message).haves = link.haves := by
  unfold Link.onCancel
  split
  · rfl
  · split
    · split
      · exact resume_have _ _
      · rfl
    · rfl
theorem namesPending_have {message : Fields} {handle : Pending → Link}
    (handled : ∀ pending, (handle pending).haves = link.haves) :
    (link.namesPending message handle).haves = link.haves := by
  unfold Link.namesPending
  split
  · rfl
  · split
    · exact handled _
    · split
      · exact close_have link _
      · rfl
@[simp] theorem onMeta_have (message : Fields) : (link.onMeta message).haves = link.haves := by
  refine namesPending_have link fun pending => ?_
  split
  · exact close_have link _
  · split
    · exact close_have link _
    · split
      · split
        · rfl
        · exact close_have link _
      · exact close_have link _
@[simp] theorem onEof_have (message : Fields) : (link.onEof message).haves = link.haves := by
  refine namesPending_have link fun pending => ?_
  split
  · exact finish_have link _ _ _
  · split
    · exact close_have link _
    · split
      · exact finish_have link _ _ _
      · exact finish_have link _ _ _
@[simp] theorem onNone_have (message : Fields) : (link.onNone message).haves = link.haves := by
  refine namesPending_have link fun pending => ?_
  split
  · exact close_have link _
  · exact finish_have link _ _ _
@[simp] theorem onContribution_have (now : Nat)
  (message : Fields) : (link.onContribution now message).haves = link.haves := by
  unfold Link.onContribution
  split <;> rfl
@[simp] theorem onFetching_have (now : Nat) (message : Fields) : (link.onFetching now message).haves = link.haves := by
  unfold Link.onFetching
  split
  · split <;> rfl
  · rfl
@[simp] theorem handleBinary_have (now : Nat)
  (chunk : List UInt8) : (link.handleBinary now chunk).haves = link.haves := by
  unfold Link.handleBinary
  split
  · rfl
  · split
    · rfl
    · split
      · exact close_have _ _
      · split
        · exact close_have _ _
        · dsimp only
          split
          · exact close_have _ _
          · split <;> rfl

variable (parse : String → Option Json)

theorem handleMessage_have (now : Nat) (message : Fields)
    (other : (field message "t").bind Json.asString ≠ some "have") :
    (link.handleMessage now message).haves = link.haves := by
  unfold Link.handleMessage
  split
  · exact onContribution_have link now message
  · exact onFetching_have link now message
  · rename_i haves
    exact absurd haves other
  · exact onWant_have link message
  · exact onCancel_have link now message
  · exact onMeta_have link message
  · exact onEof_have link message
  · exact onNone_have link message
  · rfl
theorem step_have (input : Input) (other : ∀ now text, input ≠ .text now text) :
    (link.step parse input).haves = link.haves := by
  cases input with
  | sendHave keys => exact sendText_have link _
  | sendHaveChange add del =>
    unfold Link.step Link.sendHaveChange
    dsimp only
    split
    · rfl
    · exact sendText_have link _
  | sendContribution serving rendition => exact sendText_have link _
  | sendFetching key leaseMs => exact sendText_have link _
  | request now key timeoutMs expectedSize => exact startRequest_have link _ _ _ _ _
  | requestRange now key timeoutMs range objectSize =>
    unfold Link.step Link.requestRange
    dsimp only
    split
    · rfl
    · exact startRequest_have link _ _ _ _ _
  | abort now id abandoned => exact abort_have link _ _ _
  | close reason => exact close_have link _
  | tick now => exact (fire_have _ now).trans (fire_have link now)
  | text now text => exact absurd rfl (other now text)
  | binary now chunk => exact handleBinary_have link now chunk
  | serveResponse now bytes => exact serveResponseInner_have link now bytes _
  | serveRangeResponse now objectSize bytes => exact serveResponseInner_have link now _ _
  | bufferedAmountLow now buffered => exact resume_have _ now
  | observeBuffered buffered => rfl
  | setChannelOpen isOpen => rfl
  | setReliable reliable => rfl
end

/-! ### Texts of messages -/

/-- The pieces of a range, as JSON. -/
def rangeField (range : Option PieceRange) : Fields :=
  match range with
  | .none => []
  | some range => [("p",.array [.number range.start,.number range.stop])]
def Message.fields : Message → Fields
  | .keys all => [("t",.string "have"),("keys",.array (all.map .string))]
  | .change add del => [("t",.string "have"),("add",.array (add.map .string)),("del",.array (del.map .string))]
  | .contribution serving rendition =>
    [("t",.string "contribution"),("serving",.bool serving),("rendition",rendition.elim .null .string)]
  | .fetching key leaseMs => [("t",.string "fetching"),("k",.string key),("ms",.number leaseMs)]
  | .want id key range => [("t",.string "want"),("id",.number id),("k",.string key)] ++ rangeField range
  | .cancel id => [("t",.string "cancel"),("id",.number id)]
  | .metadata id size range => [("t",.string "meta"),("id",.number id),("size",.number size)] ++ rangeField range
  | .eof id => [("t",.string "eof"),("id",.number id)]
  | .none id => [("t",.string "none"),("id",.number id)]
def commaed : List (List Char) → List Char
  | [] => []
  | [text] => text
  | text :: rest => text ++ ',' :: commaed rest
mutual
/-- `JSON.stringify`; the numbers a link sends are whole. -/
def stringify : Json → List Char
  | .null => "null".toList
  | .bool value => (if value then "true" else "false").toList
  | .number value => (toString value.num).toList
  | .string text => writeString text
  | .array items => '[' :: commaed (stringifyItems items) ++ [']']
  | .object fields => '{' :: commaed (stringifyFields fields) ++ ['}']
def stringifyItems : List Json → List (List Char)
  | [] => []
  | item :: rest => stringify item :: stringifyItems rest
def stringifyFields : List (String × Json) → List (List Char)
  | [] => []
  | (name,item) :: rest => (writeString name ++ ':' :: stringify item) :: stringifyFields rest
end
def Message.text (message : Message) : String := String.ofList (stringify (.object message.fields))

/-- The keys a HAVE message names; another message is none. -/
def Message.have : Message → Option (List String)
  | .keys all => some all
  | .change add del => some (add ++ del)
  | _ => .none
/-- A SHA-256 in hex. -/
def Hashed (key : String) : Prop := hex key 64 = true
/-- A HAVE message that names hashes only, and no more of them than the receiver reads. -/
structure Message.Brief (message : Message) : Prop where
  hashed : ∀ keys, message.have = some keys → ∀ key ∈ keys, Hashed key
  few : ∀ keys, message = .keys keys → keys.length ≤ maxHaveKeys
  short : ∀ add del, message = .change add del → add.length ≤ maxHaveKeys ∧ del.length ≤ maxHaveKeys

theorem stringifyItems_eq (items : List Json) : stringifyItems items = items.map stringify := by
  induction items with
  | nil => rfl
  | cons item rest ih => rw [stringifyItems,ih]; rfl
theorem commaed_units (texts : List (List Char)) :
    unitsOf (commaed texts) ≤ (texts.map (fun text => unitsOf text + 1)).sum := by
  induction texts with
  | nil => rfl
  | cons text rest ih =>
    cases rest with
    | nil => simp [commaed]
    | cons next rest =>
      have one : unitsOf (',' :: commaed (next :: rest)) = 1 + unitsOf (commaed (next :: rest)) := by simp
      rw [commaed,unitsOf_append,one,List.map_cons,List.sum_cons]
      · omega
      · exact fun empty => absurd empty (List.cons_ne_nil _ _)
theorem hexDigit_escape {c : Char}
    (digit : ((decide ('0' ≤ c) && decide (c ≤ '9')) || (decide ('a' ≤ c) && decide (c ≤ 'f'))) = true) :
    escape c = [c] ∧ unitsOf [c] = 1 := by
  have range : 48 ≤ c.toNat ∧ c.toNat ≤ 102 ∧ c.toNat ≠ 92 := by
    simp only [Bool.or_eq_true,Bool.and_eq_true,decide_eq_true_eq,Char.le_def,UInt32.le_iff_toNat_le] at digit
    change (48 ≤ c.toNat ∧ c.toNat ≤ 57) ∨ (97 ≤ c.toNat ∧ c.toNat ≤ 102) at digit
    omega
  constructor
  · unfold escape
    split
    all_goals first
      | (exfalso; revert range; decide)
      | (rw [if_neg (by omega),if_neg (by omega),if_neg (by omega)])
  · rw [unitsOf_cons,if_pos (by omega)]
    rfl
theorem writeString_hashed {key : String} (hashed : Hashed key) : unitsOf (writeString key) = 66 := by
  unfold Hashed hex at hashed
  rw [Bool.and_eq_true,decide_eq_true_eq] at hashed
  obtain ⟨length,digits⟩ := hashed
  have each : ∀ cs : List Char, (cs.all fun c => (decide ('0' ≤ c) && decide (c ≤ '9')) ||
      (decide ('a' ≤ c) && decide (c ≤ 'f'))) = true →
      unitsOf (cs.flatMap escape) = cs.length := by
    intro cs
    induction cs with
    | nil => intro _; rfl
    | cons c rest ih =>
      intro all
      rw [List.all_cons,Bool.and_eq_true] at all
      obtain ⟨same,unit⟩ := hexDigit_escape all.1
      rw [List.flatMap_cons,same,unitsOf_append,unit,ih all.2,List.length_cons]
      omega
  unfold writeString
  rw [unitsOf_append,unitsOf_cons,each _ digits,length]
  rfl
theorem array_units {keys : List String} (hashed : ∀ key ∈ keys, Hashed key) :
    unitsOf (stringify (.array (keys.map .string))) ≤ 67 * keys.length + 2 := by
  have sum : ∀ keys : List String, (∀ key ∈ keys, Hashed key) →
      (((keys.map Json.string).map stringify).map (fun text => unitsOf text + 1)).sum = 67 * keys.length := by
    intro keys
    induction keys with
    | nil => intro _; rfl
    | cons key rest ih =>
      intro hashed
      have first : unitsOf (stringify (.string key)) = 66 := writeString_hashed (hashed key List.mem_cons_self)
      rw [List.map_cons,List.map_cons,List.map_cons,List.sum_cons,first,
        ih (fun k inside => hashed k (List.mem_cons_of_mem _ inside)),List.length_cons]
      omega
  have inside := commaed_units (stringifyItems (keys.map .string))
  rw [stringifyItems_eq,sum keys hashed] at inside
  rw [stringify,unitsOf_append,unitsOf_cons,stringifyItems_eq]
  have last : unitsOf [']'] = 1 := by decide
  have first : (if ('[').toNat < 0x10000 then 1 else 2) = 1 := by decide
  omega
theorem text_short {message : Message} {keys : List String} (haves : message.have = some keys)
    (hashed : ∀ key ∈ keys, Hashed key) (few : keys.length ≤ 900) : units message.text ≤ maxControlUnits := by
  have within : unitsOf (stringify (.object message.fields)) ≤ 67 * 900 + 100 := by
    rw [stringify,unitsOf_append,unitsOf_cons]
    have last : unitsOf ['}'] = 1 := by decide
    have first : (if ('{').toNat < 0x10000 then 1 else 2) = 1 := by decide
    have parts := commaed_units (stringifyFields message.fields)
    have tag : unitsOf (writeString "t" ++ ':' :: stringify (.string "have")) = 10 := by decide +kernel
    have pair : ∀ word : String, ∀ items :
        List String, writeString word ++ ':' :: stringify (.array (items.map .string)) =
        (writeString word ++ [':']) ++ stringify (.array (items.map .string)) := fun word items => by simp
    cases message with
    | keys all =>
      cases haves
      have items := array_units hashed
      have name : unitsOf (writeString "keys" ++ [':']) = 7 := by decide +kernel
      simp only [Message.fields,stringifyFields,List.map_cons,List.map_nil,List.sum_cons,List.sum_nil,tag,pair] at parts
      simp only [Message.fields,stringifyFields,pair]
      rw [unitsOf_append (writeString "keys" ++ [':']),name] at parts
      omega
    | change add del =>
      cases haves
      have added := array_units (fun key inside => hashed key (List.mem_append_left _ inside))
      have dropped := array_units (fun key inside => hashed key (List.mem_append_right _ inside))
      have name : unitsOf (writeString "add" ++ [':']) = 6 := by decide +kernel
      have other : unitsOf (writeString "del" ++ [':']) = 6 := by decide +kernel
      simp only [Message.fields,stringifyFields,List.map_cons,List.map_nil,List.sum_cons,List.sum_nil,tag,pair] at parts
      simp only [Message.fields,stringifyFields,pair]
      rw [unitsOf_append (writeString "add" ++ [':']),unitsOf_append (writeString "del" ++ [':']),name,other] at parts
      rw [List.length_append] at few
      omega
    | contribution serving rendition => cases haves
    | fetching key leaseMs => cases haves
    | want id key range => cases haves
    | cancel id => cases haves
    | metadata id size range => cases haves
    | eof id => cases haves
    | none id => cases haves
  unfold units Message.text
  rw [String.toList_ofList]
  unfold maxControlUnits
  omega
theorem Message.Brief.length {message : Message} {keys : List String} (brief : message.Brief)
    (haves : message.have = some keys) :
    keys.length ≤ 900 := by
  cases message with
  | keys all =>
    cases haves
    exact (brief.few keys rfl).trans (by decide)
  | change add del =>
    cases haves
    obtain ⟨few,less⟩ := brief.short add del rfl
    unfold maxHaveKeys at few less
    rw [List.length_append]
    omega
  | contribution serving rendition => cases haves
  | fetching key leaseMs => cases haves
  | want id key range => cases haves
  | cancel id => cases haves
  | metadata id size range => cases haves
  | eof id => cases haves
  | none id => cases haves

/-! ### A HAVE message is heard -/

/-- The keys the remote holds once a message was read. -/
def heard (held : IndexMap String Unit) (message : Message) : IndexMap String Unit :=
  if message.have.isSome then (haveAfter held message.fields).1 else held
/-- What the link relies on of its JSON parser. -/
structure Reads (parse : String → Option Json) : Prop where
  /-- A HAVE message of hashes is read as it was written. -/
  haves : ∀ message : Message, ∀ keys, message.have = some keys → (∀ key ∈ keys, Hashed key) →
    parse message.text = some (.object message.fields)
  /-- A text keeps its tag. -/
  tag : ∀ message : Message, message.have = .none → ∀ fields, parse message.text = some (.object fields) →
    field fields "t" = field message.fields "t"

theorem validKeys_hashed {keys : List String} (hashed : ∀ key ∈ keys, Hashed key) :
    validKeys (some (.array (keys.map .string))) = keys.take maxHaveKeys := by
  have kept : (keys.map Json.string).filter isHex64 = keys.map Json.string := by
    refine List.filter_eq_self.mpr (fun item inside => ?_)
    obtain ⟨key,member,rfl⟩ := List.mem_map.mp inside
    exact hashed key member
  change ((((keys.map Json.string).filter isHex64).take maxHaveKeys).filterMap Json.asString) = _
  rw [kept,← List.map_take,List.filterMap_map]
  exact List.filterMap_some
theorem contains_insert (m : IndexMap String Unit) (k j : String) :
    (m.insert k ()).contains j = true ↔ j = k ∨ m.contains j = true := by
  unfold IndexMap.contains
  rw [IndexMap.get?_insert]
  split <;> simp_all
theorem contains_erase {α : Type} (m : IndexMap String α) (k j : String) :
    (m.erase k).contains j = true ↔ j ≠ k ∧ m.contains j = true := by
  unfold IndexMap.contains IndexMap.erase
  rw [Option.isSome_iff_exists,Option.isSome_iff_exists]
  simp only [IndexMap.get?_retain]
  constructor
  · rintro ⟨a,found,keep⟩
    exact ⟨by simpa using keep,a,found⟩
  · rintro ⟨other,a,found⟩
    exact ⟨a,found,by simpa using other⟩
theorem contains_inserts (keys : List String) : ∀ (m : IndexMap String Unit) (j : String),
    (keys.foldl (fun held key => held.insert key ()) m).contains j = true ↔ m.contains j = true ∨ j ∈ keys := by
  induction keys with
  | nil => simp
  | cons key rest ih =>
    intro m j
    rw [List.foldl_cons,ih,contains_insert,List.mem_cons]
    tauto
theorem contains_erases (keys : List String) : ∀ (m : IndexMap String Unit) (j : String),
    (keys.foldl (fun held key => held.erase key) m).contains j = true ↔ m.contains j = true ∧ j ∉ keys := by
  induction keys with
  | nil => simp
  | cons key rest ih =>
    intro m j
    rw [List.foldl_cons,ih,contains_erase,List.mem_cons]
    tauto
theorem contains_addKeys (keys : List String) : ∀ (m : IndexMap String Unit) (j : String),
    (addKeys keys m).1.contains j = true → m.contains j = true ∨ j ∈ keys := by
  induction keys with
  | nil => exact fun m j inside => .inl inside
  | cons key rest ih =>
    intro m j inside
    unfold addKeys at inside
    split at inside
    · exact .inl inside
    · rcases ih _ _ inside with before | later
      · rcases (contains_insert m key j).mp before with rfl | before
        · exact .inr List.mem_cons_self
        · exact .inl before
      · exact .inr (List.mem_cons_of_mem _ later)
theorem addKeys_contains (keys : List String) : ∀ (m : IndexMap String Unit) {j : String}, m.contains j = true →
    (addKeys keys m).1.contains j = true := by
  induction keys with
  | nil => exact fun m j inside => inside
  | cons key rest ih =>
    intro m j inside
    unfold addKeys
    split
    · exact inside
    · exact ih _ ((contains_insert m key j).mpr (.inr inside))
theorem heard_listed (held : IndexMap String Unit) {keys : List String} (hashed : ∀ key ∈ keys, Hashed key)
    (key : String) :
    (heard held (.keys keys)).contains key = true ↔ key ∈ keys.take maxHaveKeys := by
  have shape : heard held (.keys keys) =
      (validKeys (some (.array (keys.map .string)))).foldl (fun held key => held.insert key ()) .empty := rfl
  rw [shape,validKeys_hashed hashed,contains_inserts]
  constructor
  · rintro (none | member)
    · cases none
    · exact member
  · exact .inr
theorem heard_changed (held : IndexMap String Unit) {add del : List String} (hashed : ∀ key ∈ add ++ del, Hashed key)
    (key : String) :
    (heard held (.change add del)).contains key = true ↔
      (addKeys (add.take maxHaveKeys) held).1.contains key = true ∧ key ∉ del.take maxHaveKeys := by
  have added := validKeys_hashed (fun key inside => hashed key (List.mem_append_left del inside))
  have dropped := validKeys_hashed (fun key inside => hashed key (List.mem_append_right add inside))
  have shape : heard held (.change add del) =
      (validKeys (some (.array (del.map .string)))).foldl (fun held key => held.erase key)
      (addKeys (validKeys (some (.array (add.map .string)))) held).1 := rfl
  rw [shape,added,dropped,contains_erases]
theorem heard_keys (held : IndexMap String Unit) {keys : List String} (brief : (Message.keys keys).Brief) {key : String}
    (inside : (heard held (.keys keys)).contains key = true) : key ∈ keys :=
  List.mem_of_mem_take ((heard_listed held (brief.hashed keys rfl) key).mp inside)
theorem heard_change (held : IndexMap String Unit) {add del : List String} (brief : (Message.change add del).Brief)
    {key : String}
    (inside : (heard held (.change add del)).contains key = true) : (held.contains key = true ∨ key ∈ add) ∧
      key ∉ del := by
  obtain ⟨known,stays⟩ := (heard_changed held (brief.hashed _ rfl) key).mp inside
  rw [List.take_of_length_le (brief.short add del rfl).2] at stays
  refine ⟨?_,stays⟩
  rcases contains_addKeys _ _ _ known with before | member
  · exact .inl before
  · exact .inr (List.mem_of_mem_take member)

section
variable {parse : String → Option Json} {link : Link} {message : Message}

theorem onHave_after (link : Link) (message : Fields) :
    (link.onHave message).haves = (haveAfter link.haves message).1 ∧ (link.onHave message).closed = link.closed := by
  unfold Link.onHave
  dsimp only
  split <;> exact ⟨rfl,rfl⟩
theorem handleText_have (reads : Reads parse) (now : Nat) {keys : List String} (haves : message.have = some keys)
    (hashed : ∀ key ∈ keys, Hashed key) (few : keys.length ≤ 900) (running : link.closed = false) :
    (link.handleText parse now message.text).haves = heard link.haves message ∧
      (link.handleText parse now message.text).closed = false := by
  have read := reads.haves message keys haves hashed
  have short := text_short haves hashed few
  have tag : (field message.fields "t").bind Json.asString = some "have" := by
    cases message <;> first | rfl | cases haves
  unfold Link.handleText
  rw [if_neg (by rw [running]; exact Bool.false_ne_true),if_neg (not_lt.mpr short),read]
  dsimp only
  unfold Link.handleMessage
  rw [tag]
  unfold heard
  rw [haves,Option.isSome_some,if_pos rfl]
  obtain ⟨after,same⟩ := onHave_after (link.atTime now) message.fields
  exact ⟨after,same.trans running⟩
theorem handleText_other (reads : Reads parse) (now : Nat) (other : message.have = .none) :
    (link.handleText parse now message.text).haves = link.haves := by
  have tag : (field message.fields "t").bind Json.asString ≠ some "have" := by
    cases message with
    | keys keys => cases other
    | change add del => cases other
    | contribution | fetching | want | cancel | metadata | eof | none => simp [Message.fields,field,Json.asString]
  unfold Link.handleText
  split
  · rfl
  · split
    · exact close_have _ _
    · split
      · rename_i fields read
        refine handleMessage_have _ now fields ?_
        rw [reads.tag message other fields read]
        exact tag
      · rfl
      · exact close_have _ _
end

end RelaySwarm.Links
