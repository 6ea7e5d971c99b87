import RelaySwarm.LinkHave

/-!
The texts of HAVE messages, read as JSON. A list of hashes is written as any JSON text is,
so a reader gives back what was written (`reader_reads`).
-/
namespace RelaySwarm.Links
open Script Pieces
open JsonText (Text Value lit write quote commas)

def asString (text : Text) : String := String.ofList (text.map Char.ofNat)
mutual
/-- A value as the protocol sees it. -/
def asJson : Value → Json
  | .null => .null
  | .bool value => .bool value
  | .number value => .number value
  | .infinity _ => .null
  | .string text => .string (asString text)
  | .array items => .array (asItems items)
  | .object fields => .object (asFields fields)
def asItems : List Value → List Json
  | [] => []
  | item :: rest => asJson item :: asItems rest
def asFields : List (Text × Value) → List (String × Json)
  | [] => []
  | (name,item) :: rest => (asString name,asJson item) :: asFields rest
end
def keyValues (keys : List String) : Value := .array (keys.map (fun key => .string (lit key)))
/-- A HAVE message as a value. -/
def Message.value : Message → Value
  | .keys all => .object [(lit "t",.string (lit "have")),(lit "keys",keyValues all)]
  | .change add del => .object [(lit "t",.string (lit "have")),(lit "add",keyValues add),(lit "del",keyValues del)]
  | _ => .null

/-! ### Texts -/

theorem lit_ofList (chars : List Char) : lit (String.ofList chars) = chars.map Char.toNat := by
  unfold lit
  rw [String.toList_ofList]
theorem asString_lit (text : String) : asString (lit text) = text := by
  have same : ∀ chars : List Char, (chars.map Char.toNat).map Char.ofNat = chars := by
    intro chars
    induction chars with
    | nil => rfl
    | cons c rest ih => rw [List.map_cons,List.map_cons,Char.ofNat_toNat,ih]
  unfold asString lit
  rw [same,String.ofList_toList]
theorem commaed_units' (texts : List (List Char)) :
    (commaed texts).map Char.toNat = commas (texts.map (·.map Char.toNat)) := by
  induction texts with
  | nil => rfl
  | cons text rest ih =>
    cases rest with
    | nil => rfl
    | cons next rest =>
      change (text ++ ',' :: commaed (next :: rest)).map Char.toNat =
        text.map Char.toNat ++ 44 :: commas ((next :: rest).map (·.map Char.toNat))
      rw [List.map_append,List.map_cons,ih]
      rfl
theorem writeString_hash {key : String} (hashed : Hashed key) : (writeString key).map Char.toNat = quote (lit key) := by
  unfold Hashed hex at hashed
  rw [Bool.and_eq_true] at hashed
  have each : ∀ cs : List Char, (cs.all fun c => (decide ('0' ≤ c) && decide (c ≤ '9')) ||
      (decide ('a' ≤ c) && decide (c ≤ 'f'))) = true →
      cs.flatMap escape = cs ∧ JsonText.Printed (cs.map Char.toNat) := by
    intro cs
    induction cs with
    | nil => exact fun _ => ⟨rfl,fun unit member => nomatch member⟩
    | cons c rest ih =>
      intro all
      rw [List.all_cons,Bool.and_eq_true] at all
      obtain ⟨same,printed⟩ := ih all.2
      obtain ⟨escaped,_⟩ := hexDigit_escape all.1
      refine ⟨by rw [List.flatMap_cons,escaped,same]; rfl,?_⟩
      intro unit member
      rcases List.mem_cons.mp member with rfl | inside
      · have digit := all.1
        simp only [Bool.or_eq_true,Bool.and_eq_true,decide_eq_true_eq,Char.le_def,UInt32.le_iff_toNat_le] at digit
        change (48 ≤ c.toNat ∧ c.toNat ≤ 57) ∨ (97 ≤ c.toNat ∧ c.toNat ≤ 102) at digit
        omega
      · exact printed unit inside
  obtain ⟨same,printed⟩ := each key.toList hashed.2
  have plain : JsonText.Printed (lit key) := printed
  unfold writeString
  rw [same,List.map_append,List.map_cons,JsonText.quote_printed plain]
  rfl
theorem keyValues_text {keys : List String} (hashed : ∀ key ∈ keys, Hashed key) :
    (stringify (.array (keys.map .string))).map Char.toNat = write (keyValues keys) := by
  have items : (keys.map Json.string).map (fun item => (stringify item).map Char.toNat) =
      (keys.map (fun key => Value.string (lit key))).map write := by
    rw [List.map_map,List.map_map]
    exact List.map_congr_left (fun key inside => writeString_hash (hashed key inside))
  unfold keyValues
  rw [stringify,write,List.map_append,List.map_cons,commaed_units',stringifyItems_eq,JsonText.writeItems_eq,
    List.map_map]
  exact congrArg (fun texts => 91 :: commas texts ++ [93]) items
theorem stringifyFields_eq (fields : Fields) :
    stringifyFields fields = fields.map (fun field => writeString field.1 ++ ':' :: stringify field.2) := by
  induction fields with
  | nil => rfl
  | cons field rest ih => rw [stringifyFields,ih]; rfl
theorem object_text (fields : Fields) (values : List (Text × Value))
    (same : fields.map (fun field => (writeString field.1).map Char.toNat ++ 58 :: (stringify field.2).map Char.toNat) =
      values.map (fun value => quote value.1 ++ 58 :: write value.2)) :
    (stringify (.object fields)).map Char.toNat = write (.object values) := by
  rw [stringify,write,List.map_append,List.map_cons,commaed_units',stringifyFields_eq,JsonText.writeFields_eq,
    List.map_map,← same]
  have each : ((fun chars : List Char => chars.map Char.toNat) ∘ fun field : String × Json =>
      writeString field.1 ++ ':' :: stringify field.2) =
      fun field => (writeString field.1).map Char.toNat ++ 58 :: (stringify field.2).map Char.toNat := by
    funext field
    simp
  rw [each]
  rfl
theorem text_value {message : Message} {keys : List String} (haves : message.have = some keys)
    (hashed : ∀ key ∈ keys, Hashed key) :
    lit message.text = write message.value := by
  unfold Message.text
  rw [lit_ofList]
  have tag : (writeString "t").map Char.toNat ++ 58 :: (stringify (.string "have")).map Char.toNat =
      quote (lit "t") ++ 58 :: write (.string (lit "have")) := by decide +kernel
  cases message with
  | keys all =>
    cases haves
    have name : (writeString "keys").map Char.toNat = quote (lit "keys") := by decide +kernel
    refine object_text _ _ ?_
    simp only [Message.fields,List.map_cons,List.map_nil,tag,name,keyValues_text hashed]
  | change add del =>
    cases haves
    have added : (writeString "add").map Char.toNat = quote (lit "add") := by decide +kernel
    have dropped : (writeString "del").map Char.toNat = quote (lit "del") := by decide +kernel
    refine object_text _ _ ?_
    simp only [Message.fields,List.map_cons,List.map_nil,tag,added,dropped,
      keyValues_text (fun key inside => hashed key (List.mem_append_left del inside)),
      keyValues_text (fun key inside => hashed key (List.mem_append_right add inside))]
  | contribution serving rendition => cases haves
  | fetching key leaseMs => cases haves
  | want id key range => cases haves
  | cancel id => cases haves
  | metadata id size range => cases haves
  | eof id => cases haves
  | none id => cases haves
theorem keyValues_plain (keys : List String) : JsonText.Plain (keyValues keys) := by
  refine .array (fun item member => ?_)
  obtain ⟨key,_,rfl⟩ := List.mem_map.mp member
  exact .string _
theorem value_plain {message : Message} : JsonText.Plain message.value := by
  cases message with
  | keys all =>
    refine .object (fun field member => ?_) ?_
    · rcases List.mem_cons.mp member with rfl | later
      · exact .string _
      · rw [List.mem_singleton.mp later]
        exact keyValues_plain all
    · rfl
  | change add del =>
    refine .object (fun field member => ?_) ?_
    · rcases List.mem_cons.mp member with rfl | later
      · exact .string _
      · rcases List.mem_cons.mp later with rfl | last
        · exact keyValues_plain add
        · rw [List.mem_singleton.mp last]
          exact keyValues_plain del
    · rfl
  | contribution | fetching | want | cancel | metadata | eof | none => exact .null
theorem asJson_keys (keys : List String) : asJson (keyValues keys) = .array (keys.map .string) := by
  have items : asItems (keys.map (fun key => Value.string (lit key))) = keys.map .string := by
    induction keys with
    | nil => rfl
    | cons key rest ih => rw [List.map_cons,asItems,ih,asJson,asString_lit]; rfl
  unfold keyValues
  rw [asJson,items]
theorem asJson_value {message : Message} {keys : List String} (haves : message.have = some keys) :
    asJson message.value = .object message.fields := by
  cases message with
  | keys all =>
    unfold Message.value Message.fields
    rw [asJson,asFields,asFields,asFields,asJson_keys,asJson]
    simp only [asString_lit]
  | change add del =>
    unfold Message.value Message.fields
    rw [asJson,asFields,asFields,asFields,asFields,asJson_keys,asJson_keys,asJson]
    simp only [asString_lit]
  | contribution serving rendition => cases haves
  | fetching key leaseMs => cases haves
  | want id key range => cases haves
  | cancel id => cases haves
  | metadata id size range => cases haves
  | eof id => cases haves
  | none id => cases haves

/-! ### A reader -/

/-- A contribution that names no rendition. -/
def contributionValue (serving : Bool) : Value :=
  .object [(lit "t",.string (lit "contribution")),(lit "serving",.bool serving),(lit "rendition",.null)]
/-- HAVE messages are read, and contributions that name no rendition. -/
def reader (text : String) : Option Json :=
  if ((lit text).drop 6).take 2 = lit "ha" ∨ lit text = write (contributionValue true) ∨
    lit text = write (contributionValue false) then
    (JsonText.parse (lit text)).map asJson
  else none
/-- Where a message's tag begins. -/
def Message.letters : Message → Text
  | .keys .. => lit "ha"
  | .change .. => lit "ha"
  | .contribution .. => lit "co"
  | .fetching .. => lit "fe"
  | .want .. => lit "wa"
  | .cancel .. => lit "ca"
  | .metadata .. => lit "me"
  | .eof .. => lit "eo"
  | .none .. => lit "no"

theorem text_letters (message : Message) : ((lit message.text).drop 6).take 2 = message.letters := by
  unfold Message.text
  rw [lit_ofList]
  cases message with
  | keys all => rfl
  | change add del => rfl
  | contribution serving rendition => rfl
  | fetching key leaseMs => rfl
  | want id key range => rfl
  | cancel id => rfl
  | metadata id size range => rfl
  | eof id => rfl
  | none id => rfl
theorem contribution_plain (serving : Bool) : JsonText.Plain (contributionValue serving) := by
  refine .object (fun field member => ?_) rfl
  rcases List.mem_cons.mp member with rfl | later
  · exact .string _
  · rcases List.mem_cons.mp later with rfl | last
    · exact .bool serving
    · rw [List.mem_singleton.mp last]
      exact .null
theorem reader_have {message : Message} {keys : List String} (haves : message.have = some keys)
    (hashed : ∀ key ∈ keys, Hashed key) :
    reader message.text = some (.object message.fields) := by
  have letters : ((lit message.text).drop 6).take 2 = lit "ha" := by
    rw [text_letters]
    cases message <;> first | rfl | cases haves
  unfold reader
  rw [if_pos (.inl letters),text_value haves hashed,JsonText.parse_write value_plain,Option.map_some,asJson_value haves]
theorem reader_contribution {text : String} (serving : Bool) (same : lit text = write (contributionValue serving)) :
    reader text = some (.object (Message.contribution serving .none).fields) := by
  have read : asJson (contributionValue serving) = .object (Message.contribution serving .none).fields := by
    unfold contributionValue
    rw [asJson,asFields,asFields,asFields,asFields,asJson,asJson,asJson]
    simp only [asString_lit]
    rfl
  have taken : ((lit text).drop 6).take 2 = lit "ha" ∨ lit text = write (contributionValue true) ∨
      lit text = write (contributionValue false) := by
    cases serving with
    | true => exact .inr (.inl same)
    | false => exact .inr (.inr same)
  unfold reader
  rw [if_pos taken,same,JsonText.parse_write (contribution_plain serving),Option.map_some,read]
theorem contribution_text (serving : Bool) :
    lit (Message.contribution serving .none).text = write (contributionValue serving) := by
  cases serving <;> decide +kernel
theorem contribution_letters (serving : Bool) : ((write (contributionValue serving)).drop 6).take 2 = lit "co" := by
  cases serving <;> decide +kernel
theorem letters_have {message : Message} (other : message.have = .none) : message.letters ≠ lit "ha" := by
  cases message with
  | keys all => cases other
  | change add del => cases other
  | contribution | fetching | want | cancel | metadata | eof | none =>
    dsimp only [Message.letters]
    decide
theorem letters_contribution {message : Message} (same : message.letters = lit "co") :
    field message.fields "t" = some (.string "contribution") := by
  cases message with
  | contribution serving rendition => rfl
  | keys | change | fetching | want | cancel | metadata | eof | none =>
    refine absurd same ?_
    dsimp only [Message.letters]
    decide
theorem reader_reads : Reads reader := by
  refine ⟨fun message keys haves hashed => reader_have haves hashed,fun message other fields read => ?_⟩
  have spoken : ∀ serving, lit message.text = write (contributionValue serving) →
      field fields "t" = field message.fields "t" := by
    intro serving same
    have letters : message.letters = lit "co" := by rw [← text_letters,same,contribution_letters]
    rw [reader_contribution serving same] at read
    cases read
    rw [letters_contribution letters]
    rfl
  by_cases taken : ((lit message.text).drop 6).take 2 = lit "ha" ∨ lit message.text = write (contributionValue true) ∨
      lit message.text = write (contributionValue false)
  · rcases taken with haves | serving | still
    · rw [text_letters] at haves
      exact absurd haves (letters_have other)
    · exact spoken true serving
    · exact spoken false still
  · unfold reader at read
    rw [if_neg taken] at read
    cases read

end RelaySwarm.Links
