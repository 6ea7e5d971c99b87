import RelaySwarm.PublisherIdentity
import RelaySwarm.Remembered

/-!
Signatures of events, and the ones that were proved. In both implementations a verdict
that is remembered is the one the check would give (`proved_unchanged`). Hashes and the
Schnorr check are parameters.
-/
namespace RelaySwarm.Signatures
open JsonText Publisher

def provedCapacity : Nat := 512

/-! ### By bytes -/

/-- So many bytes. -/
structure Bytes (n : Nat) where
  list : List UInt8
  size : list.length = n
deriving DecidableEq
def Bytes.tryFrom (n : Nat) (list : List UInt8) : Option (Bytes n) :=
  if size : list.length = n then some ⟨list,size⟩ else none
def hexEncode (bytes : List UInt8) : Text :=
  bytes.flatMap (fun byte => [hexDigit (byte.toNat / 16),hexDigit (byte.toNat % 16)])
/-- Two digits of either case for each byte. -/
def hexDecode : Text → Option (List UInt8)
  | [] => some []
  | [_] => none
  | a :: b :: rest =>
    match hexValue a,hexValue b,hexDecode rest with
    | some high,some low,some bytes => some (.ofNat (high * 16 + low) :: bytes)
    | _,_,_ => none
/-- The first 64 units are lower-case hex; a longer text fails later on. -/
def isHex32 (text : Text) : Bool := 64 ≤ text.length && (text.take 64).all Publisher.hexUnit
def isNumber : Value → Bool
  | .number _ => true
  | .infinity _ => true
  | _ => false
def isString : Value → Bool
  | .string _ => true
  | _ => false
def validShape (event : Value) : Bool :=
  (property event (lit "kind")).any isNumber && (property event (lit "content")).any isString
    && (property event (lit "created_at")).any isNumber && ((property event (lit "pubkey")).bind textOf).any isHex32
    && ((property event (lit "tags")).bind itemsOf).any (fun tags =>
      tags.all (fun tag => (itemsOf tag).any (fun items => items.all isString)))
def index (event : Value) (name : String) : Value := (property event (lit name)).getD .null

/-- What a signature is checked with. -/
structure Signed where
  hash : Bytes 32
  pubkey : Bytes 32
  signature : Bytes 64
def Signed.proof (signed : Signed) : Bytes 128 where
  list := signed.hash.list ++ signed.pubkey.list ++ signed.signature.list
  size := by rw [List.length_append,List.length_append,signed.hash.size,signed.pubkey.size,signed.signature.size]

section
variable (sha256 : List UInt8 → Bytes 32) (schnorr : Signed → Bool)

def eventHash (event : Value) : Option (Bytes 32) :=
  if validShape event then
    some (sha256 (utf8Bytes (write (.array [.number 0,index event "pubkey",index event "created_at",index event "kind",
      index event "tags",index event "content"]))))
  else none
/-- The hash of an event that names it, with the key and the signature in bytes. -/
def signedOf (event : Value) : Option Signed :=
  match eventHash sha256 event with
  | none => none
  | some hash =>
    if (property event (lit "id")).bind textOf ≠ some (hexEncode hash.list) then none
    else match (property event (lit "sig")).bind textOf,textOf (index event "pubkey") with
      | some signature,some pubkey =>
        match hexDecode signature,hexDecode pubkey with
        | some signature,some pubkey =>
          match Bytes.tryFrom 64 signature,Bytes.tryFrom 32 pubkey with
          | some signature,some pubkey => some ⟨hash,pubkey,signature⟩
          | _,_ => none
        | _,_ => none
      | _,_ => none
/-- Whether an event is valid, with the proofs that are remembered. -/
def verifyEvent (proved : List (Bytes 128)) (event : Value) : Bool × List (Bytes 128) :=
  match signedOf sha256 event with
  | none => (false,proved)
  | some signed => Remembered.check provedCapacity proved signed.proof (schnorr signed)
def eventVerifies (event : Value) : Bool := (signedOf sha256 event).any schnorr
end

theorem proof_injective {a b : Signed} (same : a.proof = b.proof) : a = b := by
  obtain ⟨⟨hash,h⟩,⟨pubkey,p⟩,⟨signature,s⟩⟩ := a
  obtain ⟨⟨hash',h'⟩,⟨pubkey',p'⟩,⟨signature',s'⟩⟩ := b
  have lists : hash ++ pubkey ++ signature = hash' ++ pubkey' ++ signature' := congrArg Bytes.list same
  obtain ⟨front,rfl⟩ := List.append_inj lists (by rw [List.length_append,List.length_append,h,h',p,p'])
  obtain ⟨rfl,rfl⟩ := List.append_inj front (h.trans h'.symm)
  rfl
/-- The proofs that are remembered are those of signatures that passed. -/
def Passed (schnorr : Signed → Bool) (proof : Bytes 128) : Prop :=
  ∃ signed : Signed, proof = signed.proof ∧ schnorr signed = true
theorem passed_iff (schnorr : Signed → Bool) (signed : Signed) :
    schnorr signed = true ↔ Passed schnorr signed.proof := by
  constructor
  · exact fun passes => ⟨signed,rfl,passes⟩
  · rintro ⟨other,same,passes⟩
    rwa [proof_injective same]
theorem verifyEvent_plain (sha256 : List UInt8 → Bytes 32) (schnorr : Signed → Bool) {proved : List (Bytes 128)}
    (held : Remembered.Proved provedCapacity (Passed schnorr) proved) (event : Value) :
    (verifyEvent sha256 schnorr proved event).1 = eventVerifies sha256 schnorr event ∧
      Remembered.Proved provedCapacity (Passed schnorr) (verifyEvent sha256 schnorr proved event).2 := by
  unfold verifyEvent eventVerifies
  cases signedOf sha256 event with
  | none => exact ⟨rfl,held⟩
  | some signed =>
    have decides := passed_iff schnorr signed
    exact ⟨Remembered.check_answer held decides,Remembered.check_proved (by decide) held decides⟩

/-! ### By texts -/

/-- The fields of an event that are copied for its check. -/
structure Copied (ν : Type) where
  id : ν
  pubkey : ν
  createdAt : ν
  kind : ν
  tags : ν
  content : ν
  sig : ν
/-- The library that hashes events and checks signatures; a hash that throws is none. -/
structure Tools (ν : Type) where
  /-- The text a value is, if it is a string. -/
  text : ν → Option Text
  getEventHash : Copied ν → Option Text
  verifyEvent : Copied ν → Bool
/-- A key of the signatures that are remembered, with its parts between colons. -/
def signatureKey (hash pubkey sig : Text) : Text := hash ++ 58 :: pubkey ++ 58 :: sig

section
variable {ν : Type} (tools : Tools ν)

/-- The key of an event whose hash is its id, and whose signature is a text. -/
def keyOf (copy : Copied ν) : Option Text :=
  match tools.getEventHash copy with
  | none => none
  | some hash =>
    if tools.text copy.id ≠ some hash then none
    else (tools.text copy.sig).map (fun sig => signatureKey hash ((tools.text copy.pubkey).getD []) sig)
def validSignature (proved : List Text) (copy : Copied ν) : Bool × List Text :=
  match keyOf tools copy with
  | none => (false,proved)
  | some key => Remembered.check provedCapacity proved key (tools.verifyEvent copy)
def signatureVerifies (copy : Copied ν) : Bool := (keyOf tools copy).isSome && tools.verifyEvent copy
end
/-- What the library documents: a hash is 64 digits of lower-case hex, and only an event
    with a text as its key has one; an event whose hash is its id is checked with the
    signature, the hash and the key, which all are hex when the check accepts them. -/
structure Tools.Documented {ν : Type} (tools : Tools ν) (schnorr : Text → Text → Text → Bool) : Prop where
  hash : ∀ copy hash, tools.getEventHash copy = some hash → hexText 64 hash = true ∧
    (tools.text copy.pubkey).isSome = true
  checks : ∀ copy hash pubkey sig, tools.getEventHash copy = some hash → tools.text copy.id = some hash →
    tools.text copy.pubkey = some pubkey → tools.text copy.sig = some sig →
      tools.verifyEvent copy = schnorr sig hash pubkey
  hex : ∀ sig hash pubkey, schnorr sig hash pubkey = true → (hexDecode sig).isSome = true ∧
    (hexDecode pubkey).isSome = true

/-- The keys that are remembered are those of signatures that passed. -/
def Accepted (schnorr : Text → Text → Text → Bool) (key : Text) : Prop :=
  ∃ hash pubkey sig, hexText 64 hash = true ∧ key = signatureKey hash pubkey sig ∧ schnorr sig hash pubkey = true

theorem hexDecode_digits : ∀ {text : Text}, (hexDecode text).isSome = true → ∀ unit ∈ text, unit ≠ 58
  | [],_,unit,member => (nomatch member)
  | [_],absent,_,_ => (nomatch absent)
  | a :: b :: rest,decoded,unit,member => by
    unfold hexDecode at decoded
    split at decoded
    · rename_i high low bytes first second later
      have colon : hexValue 58 = none := by decide
      rintro rfl
      rcases List.mem_cons.mp member with rfl | member
      · exact absurd (colon.symm.trans first) (by simp)
      · rcases List.mem_cons.mp member with rfl | member
        · exact absurd (colon.symm.trans second) (by simp)
        · exact hexDecode_digits (by rw [later]; rfl) 58 member rfl
    · cases decoded
theorem colon_splits {a b a' b' : Text} (before : 58 ∉ a) (after : 58 ∉ b) (same : a ++ 58 :: b = a' ++ 58 :: b') :
    a = a' ∧ b = b' := by
  rcases List.append_eq_append_iff.mp same with ⟨part,rfl,rest⟩ | ⟨part,rfl,rest⟩
  · cases part with
    | nil => exact ⟨(List.append_nil a).symm,(List.cons.inj rest).2⟩
    | cons unit part =>
      have inside := (List.cons.inj rest).2
      exact absurd (by rw [inside]; simp) after
  · cases part with
    | nil => exact ⟨List.append_nil a',(List.cons.inj rest).2.symm⟩
    | cons unit part =>
      have colon := (List.cons.inj rest).1
      exact absurd (by rw [← colon]; simp) before
theorem signatureKey_injective {hash pubkey sig hash' pubkey' sig' : Text} (long : hexText 64 hash = true)
    (long' : hexText 64 hash' = true)
    (key : 58 ∉ pubkey) (signature : 58 ∉ sig) (same : signatureKey hash pubkey sig = signatureKey hash' pubkey' sig') :
    hash = hash' ∧ pubkey = pubkey' ∧ sig = sig' := by
  unfold hexText at long long'
  have lengths : hash.length = hash'.length := by
    have one := of_decide_eq_true (Bool.and_eq_true_iff.mp long).1
    have two := of_decide_eq_true (Bool.and_eq_true_iff.mp long').1
    rw [one,two]
  unfold signatureKey at same
  simp only [List.append_assoc,List.cons_append] at same
  obtain ⟨first,rest⟩ := List.append_inj same lengths
  exact ⟨first,colon_splits key signature (List.cons.inj rest).2⟩

section
variable {ν : Type} {tools : Tools ν} {schnorr : Text → Text → Text → Bool}

theorem keyOf_decides (documented : tools.Documented schnorr) (copy : Copied ν) (key : Text)
    (held : keyOf tools copy = some key) :
    tools.verifyEvent copy = true ↔ Accepted schnorr key := by
  unfold keyOf at held
  split at held
  · cases held
  · rename_i hash hashed
    split at held
    · cases held
    · rename_i named
      obtain ⟨sig,text,rfl⟩ := Option.map_eq_some_iff.mp held
      obtain ⟨long,typed⟩ := documented.hash copy hash hashed
      obtain ⟨pubkey,known⟩ := Option.isSome_iff_exists.mp typed
      rw [known,Option.getD_some,documented.checks copy hash pubkey sig hashed (by simpa using named) known text]
      constructor
      · exact fun passes => ⟨hash,pubkey,sig,long,rfl,passes⟩
      · rintro ⟨hash',pubkey',sig',long',same,passes⟩
        obtain ⟨signature,key⟩ := documented.hex sig' hash' pubkey' passes
        obtain ⟨rfl,rfl,rfl⟩ := signatureKey_injective long' long (fun colon => hexDecode_digits key 58 colon rfl)
          (fun colon => hexDecode_digits signature 58 colon rfl) same.symm
        exact passes
theorem validSignature_plain (documented : tools.Documented schnorr) {proved : List Text}
    (held : Remembered.Proved provedCapacity (Accepted schnorr) proved) (copy : Copied ν) :
    (validSignature tools proved copy).1 = signatureVerifies tools copy ∧
      Remembered.Proved provedCapacity (Accepted schnorr) (validSignature tools proved copy).2 := by
  unfold validSignature signatureVerifies
  cases key : keyOf tools copy with
  | none => exact ⟨rfl,held⟩
  | some key' =>
    have decides := keyOf_decides documented copy key' key
    exact ⟨Remembered.check_answer held decides,Remembered.check_proved (by decide) held decides⟩
end

/-- In every sequence of events each verdict is that of the check itself, and what is
    remembered are at most 512 signatures that passed, in both implementations. -/
theorem proved_unchanged {ν : Type} (sha256 : List UInt8 → Bytes 32) (schnorr : Signed → Bool) (tools : Tools ν)
    (check : Text → Text → Text → Bool) (documented : tools.Documented check) :
    (∀ events : List Value,
      let run := Remembered.run (verifyEvent sha256 schnorr) [] events
      run.1 = events.map (eventVerifies sha256 schnorr) ∧ run.2.length ≤ 512 ∧ ∀ proof ∈ run.2, Passed schnorr proof) ∧
    ∀ copies : List (Copied ν),
      let run := Remembered.run (validSignature tools) [] copies
      run.1 = copies.map (signatureVerifies tools) ∧ run.2.length ≤ 512 ∧ ∀ key ∈ run.2, Accepted check key := by
  constructor
  · intro events run
    obtain ⟨answers,proved⟩ := Remembered.run_answers (verifyEvent sha256 schnorr)
      (fun proved event held => verifyEvent_plain sha256 schnorr held event) events [] Remembered.nothing_proved
    exact ⟨answers,proved.few,proved.tested⟩
  · intro copies run
    obtain ⟨answers,proved⟩ := Remembered.run_answers (validSignature tools)
      (fun proved copy held => validSignature_plain documented held copy) copies [] Remembered.nothing_proved
    exact ⟨answers,proved.few,proved.tested⟩

/-- A signed stream event. -/
def streamCopy : Copied Value where
  id := .string (lit "e2e575b380a7c73ada74bf4b258244ed04031bb9d3dd6ab1bd4679e079c87f0c")
  pubkey := .string (lit "de50d9fdc4996b6d314c926ef80ac34efbd40106b39584eb18d42d98b002ad33")
  createdAt := .number 1792000000
  kind := .number 30311
  tags := .array [.array [.string (lit "d"),.string (lit "x")]]
  content := .string []
  sig :=
    .string
    (lit
    "ccdc58b50b01c82a76384456efc5e464522e6a65b503eabf997e824e3d9b5b9a0ffa3a4fb6ff2f4372c9692f0f5683f0def2ffcb2fa2248362672ec3f7486b54")
/-- The check of the signature of that event. -/
def streamCheck (sig hash pubkey : Text) : Bool :=
  textOf streamCopy.sig = some sig && textOf streamCopy.id = some hash && textOf streamCopy.pubkey = some pubkey
/-- The library on that event, whatever its signature. -/
def streamTools : Tools Value where
  text := textOf
  getEventHash copy :=
    if textOf copy.pubkey = textOf streamCopy.pubkey ∧ textOf copy.content = some [] then textOf streamCopy.id else none
  verifyEvent copy := streamCheck ((textOf copy.sig).getD []) ((textOf copy.id).getD []) ((textOf copy.pubkey).getD [])
theorem streamTools_documented : streamTools.Documented streamCheck := by
  refine ⟨fun copy hash hashed => ?_,fun copy hash pubkey sig _ id key signature => ?_,fun sig hash pubkey passes => ?_⟩
  · have hashed : (if textOf copy.pubkey = textOf streamCopy.pubkey ∧
        textOf copy.content = some [] then textOf streamCopy.id else none) =
      some hash := hashed
    split at hashed
    · rename_i known
      have whole : (textOf streamCopy.id).all (hexText 64) = true := by decide +kernel
      rw [hashed] at whole
      refine ⟨whole,?_⟩
      change (textOf copy.pubkey).isSome = true
      rw [known.1]
      rfl
    · cases hashed
  · have signature : textOf copy.sig = some sig := signature
    have id : textOf copy.id = some hash := id
    have key : textOf copy.pubkey = some pubkey := key
    simp only [streamTools,signature,id,key,Option.getD_some]
  · unfold streamCheck at passes
    simp only [Bool.and_eq_true,decide_eq_true_eq] at passes
    obtain ⟨⟨signature,_⟩,key⟩ := passes
    have digits : (textOf streamCopy.sig).all (fun sig => (hexDecode sig).isSome) = true := by decide +kernel
    have digits' : (textOf streamCopy.pubkey).all (fun pubkey => (hexDecode pubkey).isSome) = true := by decide +kernel
    rw [signature] at digits
    rw [key] at digits'
    exact ⟨digits,digits'⟩
theorem proved_unchanged_stream :
    (Remembered.run (validSignature streamTools) [] [streamCopy,streamCopy,
      { streamCopy with sig := .string (lit "00") }]).1 =
      [true,true,false] :=
  ((proved_unchanged (fun _ => ⟨List.replicate 32 0,rfl⟩) (fun _ => true) streamTools streamCheck
    streamTools_documented).2
    [streamCopy,streamCopy,{ streamCopy with sig := .string (lit "00") }]).1.trans (by decide +kernel)

end RelaySwarm.Signatures
