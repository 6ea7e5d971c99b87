import RelaySwarm.Signatures

/-!
Signed media commitments, scoped delegations and their revocations. Both implementations
take the same contents; this is what they share, and the one whose time is in whole
milliseconds. The crates that hash, check signatures and read JSON are parameters; what is
remembered of signatures does not change a verdict, so none is remembered here.
-/
namespace RelaySwarm.Commitment
open JsonText Publisher Signatures

def kindStreamAuthorisation : ℚ := 30311
def kindSegmentCommitment : ℚ := 24172
def kindCommitmentDelegation : ℚ := 24173
def kindCommitmentRevocation : ℚ := 24174
def maxSegmentBytes : Int := 16 * 1024 * 1024
def domainDelegation : Text := lit "relayswarm-commitment-delegation-v1"
def domainRevocation : Text := lit "relayswarm-commitment-revocation-v1"

/-! ### Values -/

def maxSafeInteger : Nat := 9007199254740991
def safeInteger : Value → Option Int
  | .number value => if value.den = 1 ∧ value.num.natAbs ≤ maxSafeInteger then some value.num else none
  | _ => none
/-- Objects and arrays are equal by reference only, so two that were read never are. -/
def strictEq : Value → Value → Bool
  | .null,.null => true
  | .bool a,.bool b => a = b
  | .number a,.number b => a = b
  | .infinity a,.infinity b => a = b
  | .string a,.string b => a = b
  | _,_ => false
def includes (values : List Value) (needle : Value) : Bool := values.any (strictEq · needle)
def truthy : Value → Bool
  | .null => false
  | .bool flag => flag
  | .number number => number ≠ 0
  | .string text => !text.isEmpty
  | _ => true
mutual
/-- `String`; an object that cannot be made a text counts like any other. -/
def stringOf : Value → Text
  | .null => lit "null"
  | .bool flag => if flag then lit "true" else lit "false"
  | .number number => writeNumber number
  | .infinity negative => if negative then lit "-Infinity" else lit "Infinity"
  | .string text => text
  | .array items => commas (stringsOf items)
  | .object _ => lit "[object Object]"
def stringsOf : List Value → List Text
  | [] => []
  | .null :: rest => [] :: stringsOf rest
  | item :: rest => stringOf item :: stringsOf rest
end
def isBoolean : Value → Bool
  | .bool _ => true
  | _ => false
def unique : List Value → Bool
  | [] => true
  | value :: rest => !includes rest value && unique rest
def number (n : Nat) : Value := .number n

def letter (unit : Nat) : Bool := (97 ≤ unit && unit ≤ 122) || (65 ≤ unit && unit ≤ 90)
def pathUnit (unit : Nat) : Bool := letter unit || digit unit || unit ∈ [95,46,47,45,0x212A,0x17F]
/-- The segments of a path. -/
def segments : Text → List Text
  | [] => [[]]
  | 47 :: rest => [] :: segments rest
  | unit :: rest =>
    match segments rest with
    | [] => [[unit]]
    | segment :: more => (unit :: segment) :: more
def numericRendition (value : Value) : Bool :=
  let text := stringOf value
  text = lit "0" || (1 ≤ text.length && text.length ≤ 4 && text.head? ≠ some 48 && text.all digit)

/-! ### Contents -/

/-- The text of an object with these properties; one that is undefined is left out. -/
def canonical (fields : List (String × Option Value)) : Text :=
  write (.object (fields.filterMap (fun field => field.2.map (fun value => (lit field.1,value)))))
/-- Properties of a value under their own names. -/
def fieldsOf (value : Value) (names : List String) : List (String × Option Value) :=
  names.map (fun name => (name,property value (lit name)))
def schema (value : Value) : Nat :=
  if strictEq (index value "v") (number 3) then 3 else if strictEq (index value "v") (number 2) then 2 else 1
def schemaDomain (schema : Nat) : Text :=
  if schema = 3 then lit "relayswarm-segment-v3" else if schema = 2 then lit "relayswarm-segment-v2"
    else lit "relayswarm-segment-v1"
def commitmentContent (value : Value) : Text :=
  let v := schema value
  canonical ([("domain",some (.string (schemaDomain v))),("v",some (number v))]
    ++ fieldsOf value
      ["streamEventId","swarmId","key","rendition","sequence","discontinuity","part","sha256","size","expiresAt"]
    ++ (if 2 ≤ v then fieldsOf value ["playlist","mediaType","encryption"] else [])
    ++ (if v = 3 then fieldsOf value ["pieceSize","pieces"] else []))
def delegationContent (value : Value) : Text :=
  canonical ([("domain",some (.string domainDelegation)),("v",some (number 1))]
    ++ fieldsOf value
      ["streamEventId","swarmId","delegatePubkey","notBefore","expiresAt","renditions","mediaTypes","allowParts","maxSegmentBytes"])
def revocationContent (value : Value) : Text :=
  canonical ([("domain",some (.string domainRevocation)),("v",some (number 1))] ++
    fieldsOf value ["streamEventId","swarmId","delegationId"])
def commitmentPieceSize (size : Int) : Int := (max 65536 ((size + 63) / 64) + 16383) / 16384 * 16384

/-! ### Verification -/

structure Crates where
  sha256 : List UInt8 → Bytes 32
  schnorr : Signed → Bool
  fromStr : Text → Option Value
def Crates.verifyEvent (crates : Crates) (event : Value) : Bool := eventVerifies crates.sha256 crates.schnorr event

def kindIs (event : Value) (kind : ℚ) : Bool := (property event (lit "kind")).bind numberOf = some kind
def fieldEq (event : Value) (name : String) (other : Value) : Bool := (property event (lit name)).any (strictEq · other)
/-- The value of the only tag of a name, which has two elements. -/
def singleTag (event : Value) (name : String) : Option Text :=
  match (((property event (lit "tags")).bind itemsOf).getD []).filter
      (fun tag => ((itemsOf tag).bind (·.head?)).bind textOf = some (lit name)) with
  | [tag] =>
    match itemsOf tag with
    | some [_,value] => textOf value
    | _ => none
  | _ => none
/-- An event names another, and a swarm. -/
def taggedFor (event named : Value) (swarmId : Text) : Bool :=
  singleTag event "x" = some swarmId && singleTag event "e" = textOf (index named "id")
def unlisted (ids : List Value) (id : Value) : Bool := ids.length ≤ 256 && !includes ids id
def redistributing (tag : Value) : Bool :=
  (itemsOf tag).any (fun items => items.map textOf = [some (lit "relayswarm"),some (lit "redistribute"),some (lit "1")])
def safePath (value : Value) : Bool :=
  match textOf value with
  | none => false
  | some path =>
    (lit "/media/").isPrefixOf path && !(path.drop 7).isEmpty && (path.drop 7).all pathUnit &&
      !(segments path).any (· = [46,46])
/-- What the host trusts for one verification. -/
structure Trust where
  streamEvent : Value
  swarmId : Text
  revokedDelegationIds : List Value
  delegationRevocations : List Value
def seconds (atMs : Int) : Int := atMs / 1000

section
variable (crates : Crates)

def validStreamAuthorisation (event : Value) : Bool :=
  kindIs event kindStreamAuthorisation && bounded event && crates.verifyEvent event && (singleTag event "d").isSome
    && ((property event (lit "tags")).bind itemsOf).any (·.any redistributing)
/-- Content that must be an object. -/
def parseObject (content : Value) : Option Value :=
  match (textOf content).bind crates.fromStr with
  | some (.object fields) => some (.object fields)
  | _ => none
/-- The creation time of a revocation whose envelope could revoke anything. -/
def revocationCreatedAt (revocation stream : Value) : Option Int :=
  if !truthy revocation || !bounded revocation || !kindIs revocation kindCommitmentRevocation
      || !fieldEq revocation "pubkey" (index stream "pubkey") then none
  else (property revocation (lit "created_at")).bind safeInteger
/-- Whether no revocation in the list ends the delegation. -/
def unrevoked (event stream : Value) (swarmId : Text) (createdAt now : Int) : List Value → Option Unit
  | [] => some ()
  | revocation :: rest =>
    -- untrusted or forged revocations cannot revoke an authorisation
    match revocationCreatedAt revocation stream with
    | none => unrevoked event stream swarmId createdAt now rest
    | some created =>
      if created < createdAt || now + 30 < created || !crates.verifyEvent revocation
          || !taggedFor revocation event swarmId then
        unrevoked event stream swarmId createdAt now rest
      else
        match textOf (index revocation "content") with
        | none => none
        | some content =>
          match crates.fromStr content with
          -- content that cannot be read rejects, as null does
          | none => none
          | some .null => none
          | some (.object fields) =>
            let revoked := Value.object fields
            if content = revocationContent revoked && textOf (index revoked "domain") = some domainRevocation
                && strictEq (index revoked "v") (number 1) &&
                  strictEq (index revoked "streamEventId") (index stream "id")
                && textOf (index revoked "swarmId") = some swarmId &&
                  strictEq (index revoked "delegationId") (index event "id") then
              none
            else unrevoked event stream swarmId createdAt now rest
          | some _ => unrevoked event stream swarmId createdAt now rest
/-- Whether the content of a delegation has the scope it may have. -/
def scopeAccepted (event value stream : Value) (swarmId : Text) (createdAt now : Int) : Bool :=
  let notBefore := safeInteger (index value "notBefore")
  let expiresAt := safeInteger (index value "expiresAt")
  textOf (index event "content") = some (delegationContent value) && textOf (index value "domain") =
    some domainDelegation
    && strictEq (index value "v") (number 1) && strictEq (index value "streamEventId") (index stream "id")
    && textOf (index value "swarmId") = some swarmId && hexText 64 (stringOf (index value "delegatePubkey"))
    && notBefore.any (fun notBefore => createdAt ≤ notBefore && notBefore ≤ now)
    && expiresAt.any (fun expiresAt => now < expiresAt && notBefore.all (· < expiresAt) && expiresAt ≤ createdAt + 3600)
    && (itemsOf (index value "renditions")).any (fun items =>
      !items.isEmpty && items.length ≤ 40 && unique items &&
        items.all (fun entry => safePath entry || numericRendition entry))
    && (itemsOf (index value "mediaTypes")).any (fun items =>
      !items.isEmpty && items.length ≤ 2 && unique items
        && items.all (fun entry => textOf entry = some (lit "main") || textOf entry = some (lit "audio")))
    && isBoolean (index value "allowParts")
    && (safeInteger (index value "maxSegmentBytes")).any (fun max => 1 ≤ max && max ≤ maxSegmentBytes)
/-- The scope of a delegation. A missing revocation is no proof that there is none. -/
def verifyCommitmentDelegation (event : Option Value) (trust : Trust) (atMs : Int) : Option Value := do
  let now := seconds atMs
  let stream := trust.streamEvent
  let event ← event.filter truthy
  guard (validStreamAuthorisation crates stream && bounded event && kindIs event kindCommitmentDelegation
    && fieldEq event "pubkey" (index stream "pubkey") && crates.verifyEvent event &&
      taggedFor event stream trust.swarmId)
  let createdAt ← safeInteger (index event "created_at")
  guard (createdAt ≤ now + 30 && unlisted trust.revokedDelegationIds (index event "id") &&
    trust.delegationRevocations.length ≤ 256)
  let value ← parseObject crates (index event "content")
  guard (scopeAccepted event value stream trust.swarmId createdAt now)
  unrevoked crates event stream trust.swarmId createdAt now trust.delegationRevocations
  pure value

/-- A fragment as the shell reduced it from the player's structures. -/
structure FragmentContext where
  sequence : Value
  discontinuity : Value
  part : Value
  level : Text
  fragType : Value
  decryptMethod : Value
  media : Option Value

/-- Whether the content of a commitment is for this fragment at this time. -/
def commitmentAccepted (event value stream : Value) (swarmId key : Text) (context : FragmentContext)
    (limit now : Int) : Bool :=
  let v := schema value
  let part := index value "part"
  textOf (index event "content") = some (commitmentContent value) && textOf (index value "domain") =
    some (schemaDomain v)
    && includes [number 1,number 2,number 3] (index value "v") &&
      strictEq (index value "streamEventId") (index stream "id")
    && textOf (index value "swarmId") = some swarmId && textOf (index value "key") = some key
    && strictEq (index value "sequence") context.sequence &&
      strictEq (index value "discontinuity") context.discontinuity
    -- a part that is missing is not one that is null
    && (property value (lit "part")).isSome && strictEq part context.part
    && (safeInteger (index value "sequence")).any (0 ≤ ·) && (safeInteger (index value "discontinuity")).any (0 ≤ ·)
    && (strictEq part .null || (safeInteger part).any (0 ≤ ·)) && hexText 64 (stringOf (index value "sha256"))
    && (safeInteger (index value "size")).any (fun size => 1 ≤ size && size ≤ limit)
    && (safeInteger (index value "expiresAt")).any (fun expiresAt => now < expiresAt && expiresAt ≤ now + 300)
/-- One hash for each piece, so that a segment can come from several holders. -/
def piecesAccepted (value : Value) : Bool :=
  match safeInteger (index value "size"),itemsOf (index value "pieces") with
  | some size,some pieces =>
    let pieceSize := commitmentPieceSize size
    strictEq (index value "pieceSize") (.number pieceSize) && (pieces.length : Int) = (size + pieceSize - 1) / pieceSize
      && pieces.all (fun piece => (textOf piece).any (hexText 64))
  | _,_ => false
def mediaAccepted (value : Value) (context : FragmentContext) : Bool :=
  if 2 ≤ schema value then
    context.media.any (fun expected =>
      strictEq (index value "rendition") (index expected "playlist") &&
        strictEq (index value "playlist") (index expected "playlist")
        && strictEq (index value "mediaType") (index expected "mediaType")
        && (property value (lit "encryption")).map write = some (write (index expected "encryption")))
  else
    strictEq (index value "rendition") (.string context.level)
      && (!truthy context.fragType || strictEq context.fragType (.string (lit "main")))
      && (!truthy context.decryptMethod || strictEq context.decryptMethod (.string (lit "NONE")))
def scopeInt (scope : Value) (name : String) : Int := (safeInteger (index scope name)).getD (-2 ^ 63)
def scopeList (scope : Value) (name : String) : List Value := (itemsOf (index scope name)).getD []
/-- Whether a commitment is in the scope of its delegation. -/
def inScope (event value delegation scope : Value) (createdAt : Int) : Bool :=
  let mediaType := if 2 ≤ schema value then index value "mediaType" else .string (lit "main")
  fieldEq event "pubkey" (index scope "delegatePubkey")
    && (singleTag event "delegation").any (fun id => strictEq (.string id) (index delegation "id"))
    && scopeInt scope "notBefore" ≤ createdAt
    && (safeInteger (index value "expiresAt")).any (· ≤ scopeInt scope "expiresAt")
    && includes (scopeList scope "renditions") (index value "rendition") &&
      includes (scopeList scope "mediaTypes") mediaType
    && (strictEq (index value "part") .null || strictEq (index scope "allowParts") (.bool true))
    && (safeInteger (index value "size")).any (· ≤ scopeInt scope "maxSegmentBytes")
/-- The content of a commitment; whoever received bytes still checks them. -/
def verifySegmentCommitment (event : Value) (trust : Trust) (key : Text) (context : FragmentContext)
    (maxSegment : Value)
    (delegation : Option Value) (atMs : Int) : Option Value := do
  let now := seconds atMs
  let stream := trust.streamEvent
  let limit ← (safeInteger maxSegment).filter (fun max => 1 ≤ max && max ≤ maxSegmentBytes)
  guard (validStreamAuthorisation crates stream && truthy event && kindIs event kindSegmentCommitment && bounded event)
  let createdAt ← (property event (lit "created_at")).bind safeInteger
  guard (createdAt ≤ now + 30 && now - 120 ≤ createdAt && crates.verifyEvent event &&
    taggedFor event stream trust.swarmId)
  let value ← parseObject crates (index event "content")
  guard (commitmentAccepted event value stream trust.swarmId key context limit now)
  guard (schema value ≠ 3 || piecesAccepted value)
  guard (mediaAccepted value context)
  if fieldEq event "pubkey" (index stream "pubkey") then pure value
  else do
    let scope ← verifyCommitmentDelegation crates delegation trust atMs
    let delegation ← delegation
    guard (inScope event value delegation scope createdAt)
    pure value
end

end RelaySwarm.Commitment
