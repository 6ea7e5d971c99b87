import RelaySwarm.Commitment

/-!
The verifier in the browser. What throws and what returns null both end in null, so one
`none` stands for either. A time is any number, and what the library and the URL class
do are parameters; a property that is missing is undefined.
-/
namespace RelaySwarm.CommitmentScript
open JsonText Publisher Signatures Commitment

/-! ### Times -/

inductive Instant where
  | nan
  | infinite (negative : Bool)
  | finite (ms : ℚ)
inductive Seconds where
  | nan
  | infinite (negative : Bool)
  | finite (n : Int)
def Instant.seconds : Instant → Seconds
  | .nan => .nan
  | .infinite negative => .infinite negative
  | .finite ms =>
    match double (ms / 1000) with
    | none => .infinite (ms < 0)
    | some value => .finite ⌊value⌋
/-- `n > seconds + offset` -/
def Seconds.exceeded (seconds : Seconds) (offset n : Int) : Bool :=
  match seconds with
  | .nan => false
  | .infinite negative => negative
  | .finite now => now + offset < n
/-- `n < seconds + offset` -/
def Seconds.undercut (seconds : Seconds) (offset n : Int) : Bool :=
  match seconds with
  | .nan => false
  | .infinite negative => !negative
  | .finite now => n < now + offset
/-- `n <= seconds` -/
def Seconds.reached (seconds : Seconds) (n : Int) : Bool :=
  match seconds with
  | .nan => false
  | .infinite negative => !negative
  | .finite now => n ≤ now

/-! ### Values -/

/-- `===`, where none is undefined. -/
def same : Option Value → Option Value → Bool
  | none,none => true
  | some a,some b => strictEq a b
  | _,_ => false
def truthyField (value : Option Value) : Bool := value.any truthy
def foldedLetter (unit : Nat) : Nat := if 65 ≤ unit && unit ≤ 90 then unit + 32 else unit
/-- The prefix of a path is read without regard to case. -/
def safePath (value : Option Value) : Bool :=
  match value.bind textOf with
  | none => false
  | some path =>
    (path.take 7).map foldedLetter = lit "/media/" && !(path.drop 7).isEmpty && (path.drop 7).all pathUnit
      && !(segments path).any (· = [46,46])

structure Url where
  protocol : Text
  origin : Text
  username : Text
  password : Text
  pathname : Text
  search : Text
  hash : Text
  searchParams : List (Text × Text)
/-- The library for events, and the URL class; a URL that throws is none. -/
structure Library where
  nostr : Tools (Option Value)
  url : Text → Option Url → Option Url

def copyOf (event : Value) : Copied (Option Value) where
  id := property event (lit "id")
  pubkey := property event (lit "pubkey")
  createdAt := property event (lit "created_at")
  kind := property event (lit "kind")
  tags := property event (lit "tags")
  content := property event (lit "content")
  sig := property event (lit "sig")
def validSignature (library : Library) (event : Value) : Bool := signatureVerifies library.nostr (copyOf event)

def rowsOf (tags : Option Value) : Option (List (List Text)) :=
  (tags.bind itemsOf).bind (·.mapM (fun row => (itemsOf row).bind (·.mapM textOf)))
/-- The library has a hash only of events with tags that are lists of texts. -/
def Library.Shaped (library : Library) : Prop :=
  ∀ copy hash, library.nostr.getEventHash copy = some hash → (rowsOf copy.tags).isSome
/-- The one value of a tag, or null. It is asked for where a signature was valid. -/
def tag (event : Value) (name : String) : Option Value :=
  (rowsOf (property event (lit "tags"))).map (fun rows =>
    match rows.filter (fun row => row.head? = some (lit name)) with
    | [[_,value]] => .string value
    | _ => .null)

def unlisted (ids : List Value) (id : Option Value) : Bool :=
  ids.length ≤ 256 && !ids.any (fun listed => same (some listed) id)

/-! ### Delegations -/

section
variable (library : Library)

def validStreamAuthorisation (event : Value) : Bool :=
  same (property event (lit "kind")) (some (.number kindStreamAuthorisation)) && bounded event &&
    validSignature library event
    && ((tag event "d").bind textOf).isSome
    && (rowsOf (property event (lit "tags"))).any (·.any (· = [lit "relayswarm",lit "redistribute",lit "1"]))
/-- No revocation in the list ends the delegation; to go on is to look at the rest. -/
def unrevoked (event stream : Value) (swarmId : Text) (createdAt : Int) (seconds : Seconds) : List Value → Option Unit
  | [] => some ()
  | revocation :: rest =>
    match (property revocation (lit "created_at")).bind safeInteger with
    | none => unrevoked event stream swarmId createdAt seconds rest
    | some created =>
      if !truthy revocation || !bounded revocation ||
        !same (property revocation (lit "kind")) (some (.number kindCommitmentRevocation))
          || !same (property revocation (lit "pubkey")) (property stream (lit "pubkey"))
          || created < createdAt || seconds.exceeded 30 created || !validSignature library revocation then
        unrevoked event stream swarmId createdAt seconds rest
      else
        match tag revocation "e",tag revocation "x" with
        | some e,some x =>
          if !same (some e) (property event (lit "id")) || !same (some x) (some (.string swarmId)) then
            unrevoked event stream swarmId createdAt seconds rest
          else
            match ((property revocation (lit "content")).bind textOf).bind parse with
            -- what cannot be read throws, and so does a property of null
            | none => none
            | some .null => none
            | some revoked =>
              if same (property revocation (lit "content")) (some (.string (revocationContent revoked)))
                  && same (property revoked (lit "domain")) (some (.string domainRevocation))
                  && same (property revoked (lit "v")) (some (number 1))
                  && same (property revoked (lit "streamEventId")) (property stream (lit "id"))
                  && same (property revoked (lit "swarmId")) (some (.string swarmId))
                  && same (property revoked (lit "delegationId")) (property event (lit "id")) then
                none
              else unrevoked event stream swarmId createdAt seconds rest
        | _,_ => none
def scopeAccepted (event value stream : Value) (swarmId : Text) (createdAt : Int) (seconds : Seconds) : Bool :=
  same (property event (lit "content")) (some (.string (delegationContent value)))
    && same (property value (lit "domain")) (some (.string domainDelegation)) &&
      same (property value (lit "v")) (some (number 1))
    && same (property value (lit "streamEventId")) (property stream (lit "id"))
    && same (property value (lit "swarmId")) (some (.string swarmId))
    && (property value (lit "delegatePubkey")).any (fun key => hexText 64 (stringOf key))
    && ((property value (lit "notBefore")).bind safeInteger).any (fun notBefore =>
      createdAt ≤ notBefore && !seconds.exceeded 0 notBefore
        && ((property value (lit "expiresAt")).bind safeInteger).any (fun expiresAt =>
          !seconds.reached expiresAt && notBefore < expiresAt && expiresAt ≤ createdAt + 3600))
    && ((property value (lit "renditions")).bind itemsOf).any (fun items =>
      !items.isEmpty && items.length ≤ 40 && unique items &&
        items.all (fun entry => safePath (some entry) || numericRendition entry))
    && ((property value (lit "mediaTypes")).bind itemsOf).any (fun items =>
      !items.isEmpty && items.length ≤ 2 && unique items &&
        items.all (includes [.string (lit "main"),.string (lit "audio")] ·))
    && (property value (lit "allowParts")).any isBoolean
    && ((property value (lit "maxSegmentBytes")).bind safeInteger).any (fun max => 1 ≤ max && max ≤ maxSegmentBytes)
/-- The scope of a delegation; a host supplies its current view of revocations. -/
def verifyCommitmentDelegation (event : Option Value) (trust : Trust) (atMs : Instant) : Option Value := do
  let seconds := atMs.seconds
  let stream := trust.streamEvent
  guard (validStreamAuthorisation library stream)
  let event ← event.filter truthy
  guard (bounded event && same (property event (lit "kind")) (some (.number kindCommitmentDelegation))
    && same (property event (lit "pubkey")) (property stream (lit "pubkey")) && validSignature library event)
  let x ← tag event "x"
  let e ← tag event "e"
  guard (same (some x) (some (.string trust.swarmId)) && same (some e) (property stream (lit "id")))
  let createdAt ← (property event (lit "created_at")).bind safeInteger
  guard (!seconds.exceeded 30 createdAt && unlisted trust.revokedDelegationIds (property event (lit "id"))
    && trust.delegationRevocations.length ≤ 256)
  let value ← ((property event (lit "content")).bind textOf).bind parse
  guard (scopeAccepted event value stream trust.swarmId createdAt seconds)
  unrevoked library event stream trust.swarmId createdAt seconds trust.delegationRevocations
  pure value

/-! ### Commitments -/

structure Decrypt where
  method : Option Value
  keyFormat : Option Value
  uri : Option Value
  iv : Option (List Value)
/-- What is read of a fragment and of the part that is played. -/
structure Context where
  baseurl : Option Value
  baseUrl : Option Value
  sn : Option Value
  cc : Option Value
  level : Option Value
  type : Option Value
  decryptdata : Option Decrypt
  partIndex : Option Value

/-- Whether a text is a number of digits, `YES` or `v2`. -/
def directive (value : Text) : Bool := (!value.isEmpty && value.all digit) || value = lit "YES" || value = lit "v2"
def isByte (value : Value) : Bool := (safeInteger value).any (fun byte => 0 ≤ byte && byte ≤ 255)
def byteHex (value : Value) : Text :=
  let byte := ((safeInteger value).getD 0).toNat
  [hexDigit (byte / 16),hexDigit (byte % 16)]
/-- The encryption of a fragment at a URL; none of it is null. -/
def encryptionOf (decrypt : Option Decrypt) (url : Url) : Option Value :=
  match decrypt with
  | none => some .null
  | some decrypt =>
    if !truthyField decrypt.method || same decrypt.method (some (.string (lit "NONE"))) then some .null
    else if !same decrypt.method (some (.string (lit "AES-128")))
        || (truthyField decrypt.keyFormat && !same decrypt.keyFormat (some (.string (lit "identity")))) then none
    else do
      let key ← library.url ((decrypt.uri.map stringOf).getD (lit "undefined")) (some url)
      guard (key.origin = url.origin && key.search.isEmpty && key.hash.isEmpty &&
        safePath (some (.string key.pathname)))
      let iv ← decrypt.iv
      guard (iv.length = 16 && iv.all isByte)
      pure (.object [(lit "method",.string (lit "AES-128")),(lit "keyPath",.string key.pathname),
        (lit "iv",.string (iv.flatMap byteHex)),(lit "keyFormat",.string (lit "identity"))])
/-- An exact local playlist with its media type and encryption. -/
def segmentMediaContext (context : Context) : Option Value := do
  let raw ← (if truthyField context.baseurl then context.baseurl else context.baseUrl).bind textOf
  guard (raw.length ≤ 4096)
  let url ← library.url raw none
  let names := url.searchParams.map (·.1)
  guard ((url.protocol = lit "http:" || url.protocol = lit "https:") && names.Nodup)
  guard (url.username.isEmpty && url.password.isEmpty && url.hash.isEmpty && url.searchParams.all (fun param =>
    (param.1 = lit "_HLS_msn" || param.1 = lit "_HLS_part" || param.1 = lit "_HLS_skip") && directive param.2))
  guard (safePath (some (.string url.pathname)))
  let mediaType :=
    if same context.type none || same context.type (some .null) then .string (lit "main") else context.type.getD .null
  guard (includes [.string (lit "main"),.string (lit "audio")] mediaType)
  let encryption ← encryptionOf library context.decryptdata url
  pure (.object [(lit "playlist",.string url.pathname),(lit "mediaType",mediaType),(lit "encryption",encryption)])
/-- A value, or another where it is missing or null. -/
def orElse (value : Option Value) (other : Value) : Option Value :=
  match value with
  | none => some other
  | some .null => some other
  | some value => some value
def commitmentAccepted (event value stream : Value) (swarmId key : Text) (context : Context) (limit : Int)
    (seconds : Seconds) : Bool :=
  let v := schema value
  let part := property value (lit "part")
  same (property event (lit "content")) (some (.string (commitmentContent value)))
    && same (property value (lit "domain")) (some (.string (schemaDomain v)))
    && (property value (lit "v")).any (includes [number 1,number 2,number 3] ·)
    && same (property value (lit "streamEventId")) (property stream (lit "id"))
    && same (property value (lit "swarmId")) (some (.string swarmId)) &&
      same (property value (lit "key")) (some (.string key))
    && same (property value (lit "sequence")) context.sn &&
      same (property value (lit "discontinuity")) (orElse context.cc (number 0))
    && same part (orElse context.partIndex .null)
    && ((property value (lit "sequence")).bind safeInteger).any (0 ≤ ·)
    && ((property value (lit "discontinuity")).bind safeInteger).any (0 ≤ ·)
    && (same part (some .null) || (part.bind safeInteger).any (0 ≤ ·))
    && (property value (lit "sha256")).any (fun hash => hexText 64 (stringOf hash))
    && ((property value (lit "size")).bind safeInteger).any (fun size => 1 ≤ size && size ≤ limit)
    && ((property value (lit "expiresAt")).bind safeInteger).any (fun expiresAt =>
      !seconds.reached expiresAt && !seconds.exceeded 300 expiresAt)
def mediaAccepted (value : Value) (context : Context) : Bool :=
  if 2 ≤ schema value then
    (segmentMediaContext library context).any (fun expected =>
      same (property value (lit "rendition")) (property expected (lit "playlist"))
        && same (property value (lit "playlist")) (property expected (lit "playlist"))
        && same (property value (lit "mediaType")) (property expected (lit "mediaType"))
        && (property value (lit "encryption")).map write = (property expected (lit "encryption")).map write)
  else
    same (property value (lit "rendition")) (some (.string ((context.level.map stringOf).getD (lit "undefined"))))
      && (!truthyField context.type || same context.type (some (.string (lit "main"))))
      && (!truthyField (context.decryptdata.bind (·.method))
        || same (context.decryptdata.bind (·.method)) (some (.string (lit "NONE"))))
def inScope (event value delegation scope : Value) (createdAt : Int) (named : Value) : Bool :=
  let mediaType := if 2 ≤ schema value then property value (lit "mediaType") else some (.string (lit "main"))
  let within := fun (a b : String) => ((property value (lit a)).bind safeInteger).any (fun n =>
    ((property scope (lit b)).bind safeInteger).any (n ≤ ·))
  same (property event (lit "pubkey")) (property scope (lit "delegatePubkey")) &&
    same (some named) (property delegation (lit "id"))
    && ((property scope (lit "notBefore")).bind safeInteger).any (· ≤ createdAt) && within "expiresAt" "expiresAt"
    && ((property scope (lit "renditions")).bind itemsOf).any
      (·.any (fun entry => same (some entry) (property value (lit "rendition"))))
    && ((property scope (lit "mediaTypes")).bind itemsOf).any (·.any (fun entry => same (some entry) mediaType))
    && (same (property value (lit "part")) (some .null) || truthyField (property scope (lit "allowParts")))
    && within "size" "maxSegmentBytes"
def verifySegmentCommitment (event : Value) (trust : Trust) (key : Text) (context : Context) (maxSegment : Value)
    (delegation : Option Value) (atMs : Instant) : Option Value := do
  let seconds := atMs.seconds
  let stream := trust.streamEvent
  let limit ← (safeInteger maxSegment).filter (fun max => 1 ≤ max && max ≤ maxSegmentBytes)
  guard (validStreamAuthorisation library stream && truthy event
    && same (property event (lit "kind")) (some (.number kindSegmentCommitment)) && bounded event)
  let createdAt ← (property event (lit "created_at")).bind safeInteger
  guard (!seconds.exceeded 30 createdAt && !seconds.undercut (-120) createdAt && validSignature library event)
  let x ← tag event "x"
  let e ← tag event "e"
  guard (same (some x) (some (.string trust.swarmId)) && same (some e) (property stream (lit "id")))
  let value ← ((property event (lit "content")).bind textOf).bind parse
  guard (commitmentAccepted event value stream trust.swarmId key context limit seconds)
  guard (schema value ≠ 3 || piecesAccepted value)
  guard (mediaAccepted library value context)
  if same (property event (lit "pubkey")) (property stream (lit "pubkey")) then pure value
  else do
    let scope ← verifyCommitmentDelegation library delegation trust atMs
    let delegation ← delegation
    let named ← tag event "delegation"
    guard (inScope event value delegation scope createdAt named)
    pure value
end

end RelaySwarm.CommitmentScript
