import Mathlib.Data.Rat.Defs
import Mathlib.Algebra.Order.Ring.Rat

/-!
The media playlists of a publisher. Lines are read one after another; each segment and
part becomes a record with the sequence, the key and the map that hold there. A delta
playlist skips its first segments, whose records come from the catalogue before. How a
URL is resolved and a number is read are tools.
-/
namespace RelaySwarm.HlsMedia

abbrev Text := List Char
def maxRecords : Nat := 4096
def maxSegment : Nat := 16 * 1024 * 1024
def maxParts : Nat := 1024
def maxSafe : Nat := 9007199254740991

/-- What `Number` makes of a text. -/
inductive Number where
  | nan
  | infinite (negative : Bool)
  | finite (value : ℚ)
def Number.positive : Number → Bool
  | .nan => false
  | .infinite negative => !negative
  | .finite value => 0 < value
def Number.isFinite : Number → Bool
  | .finite _ => true
  | _ => false
/-- The path of a URI at a parent's, unless there is no such URL, and the number of a text. -/
structure Tools where
  pathname : Text → Text → Option Text
  number : Text → Number

/-! ### Texts -/

def fail {α : Type} (message : String) : Except String α := .error message
def failIf (refused : Bool) (message : String) : Except String Unit := if refused then fail message else pure ()
def isDigit (c : Char) : Bool := '0' ≤ c && c ≤ '9'
def decimal (digits : Text) : Nat := digits.foldl (fun n c => n * 10 + (c.toNat - 48)) 0
def safe (number : Nat) : Except String Nat := if number ≤ maxSafe then pure number else fail "Invalid media context."
def hlsInteger (value : Text) : Except String Nat :=
  if value.isEmpty || !value.all isDigit then fail "Invalid media context." else safe (decimal value)
def whitespace (c : Char) : Bool :=
  (9 ≤ c.toNat && c.toNat ≤ 13) || (0x2000 ≤ c.toNat && c.toNat ≤ 0x200A) ||
    c.toNat ∈ [0x20,0xA0,0x1680,0x2028,0x2029,0x202F,0x205F,0x3000,0xFEFF]
/-- A letter, without regard to case; two more characters fold to letters. -/
def letter (c : Char) : Bool := ('a' ≤ c && c ≤ 'z') || ('A' ≤ c && c ≤ 'Z') || c.toNat = 0x17F || c.toNat = 0x212A
def pathChar (c : Char) : Bool := letter c || isDigit c || c ∈ ['_','.','/','-']
def schemed (uri : Text) : Bool := !(uri.takeWhile letter).isEmpty && (uri.dropWhile letter).head? = some ':'
def localMediaPath (tools : Tools) (uri parent : Text) : Except String Text := do
  failIf (uri.isEmpty || uri.any (fun c => c ∈ ['?','%','#','\\'] || whitespace c) || schemed uri ||
    ['/','/'].isPrefixOf uri)
    "Only local media URIs are supported."
  match tools.pathname uri parent with
  | none => fail "Invalid URL"
  | some path =>
    failIf (!"/media/".toList.isPrefixOf path || !path.all pathChar) "Media URI leaves the published directory."
    pure path
def splitLines : Text → List Text
  | [] => [[]]
  | '\r' :: '\n' :: rest => [] :: splitLines rest
  | '\n' :: rest => [] :: splitLines rest
  | c :: rest =>
    match splitLines rest with
    | [] => [[c]]
    | line :: more => (c :: line) :: more
def trim (line : Text) : Text := ((line.dropWhile whitespace).reverse.dropWhile whitespace).reverse
def lines (text : Text) : Except String (List Text) := do
  failIf (!"#EXTM3U".toList.isPrefixOf text) "Invalid HLS playlist."
  pure (((splitLines text).map trim).filter (!·.isEmpty))

def nameChar (c : Char) : Bool := ('A' ≤ c && c ≤ 'Z') || isDigit c || c = '-'
/-- A value from the start of a text: in quotes when a comma or the end follows them, or
    else up to the next comma. What is after the comma remains. -/
def valueAt (text : Text) : Text × Text :=
  let quoted := (text.drop 1).takeWhile (· ≠ '"')
  let after := text.drop (quoted.length + 2)
  if text.head? = some '"' && (text.drop (quoted.length + 1)).head? =
    some '"' && (after.isEmpty || after.head? = some ',') then
    ('"' :: (quoted ++ ['"']),after.drop 1)
  else (text.takeWhile (· ≠ ','),(text.dropWhile (· ≠ ',')).drop 1)
/-- A quote at either end is left out. -/
def unquote (value : Text) : Text :=
  let inner := if value.head? = some '"' then value.drop 1 else value
  if inner.getLast? = some '"' then inner.dropLast else inner
def attributesFrom : Nat → List (Text × Text) → Text → Except String (List (Text × Text))
  | 0,_,_ => fail "Invalid HLS attributes."
  | fuel + 1,result,text =>
    if text.isEmpty then pure result
    else
      let name := text.takeWhile nameChar
      let rest := text.dropWhile nameChar
      if name.isEmpty || rest.head? ≠ some '=' || result.any (·.1 = name) then fail "Invalid HLS attributes."
      else
        let value := valueAt (rest.drop 1)
        attributesFrom fuel (result ++ [(name,unquote value.1)]) value.2
/-- The attributes of a tag; each of them takes at least two characters. -/
def attributes (text : Text) : Except String (List (Text × Text)) := attributesFrom (text.length + 1) [] text
/-- The value of an attribute; one that is missing counts as an empty one. -/
def attr (attrs : List (Text × Text)) (name : String) : Text := ((attrs.find? (·.1 = name.toList)).map (·.2)).getD []

/-! ### Records -/

structure Key where
  keyPath : Text
  iv : Option Text
deriving DecidableEq
structure Encryption where
  method : String
  keyPath : Text
  iv : Text
  keyFormat : String
deriving DecidableEq
structure MediaMap where
  path : Text
  rangeStart : Option Nat
  rangeEnd : Option Nat
deriving DecidableEq
/-- A segment, or a part of one, with the key's own initialisation vector. -/
structure MediaRecord where
  path : Text
  playlist : Text
  mediaType : String
  level : Nat
  sequence : Nat
  discontinuity : Nat
  part : Option Nat
  rangeStart : Option Nat
  rangeEnd : Option Nat
  encryption : Option Encryption
  map : Option MediaMap
  keyIv : Option Text
deriving DecidableEq

def hexPadded (n : Nat) : Text :=
  let digits := Nat.toDigits 16 n
  List.replicate (32 - digits.length) '0' ++ digits
/-- The bytes from a start, or from where the last record of the same path ended. -/
def byteRange (text path : Text) (previous : Option MediaRecord) : Except String (Nat × Nat) := do
  let digits := text.takeWhile isDigit
  let rest := text.dropWhile isDigit
  failIf (digits.isEmpty ||
    !(rest.isEmpty || (rest.head? = some '@' && !(rest.drop 1).isEmpty && (rest.drop 1).all isDigit)))
    "Invalid byte range."
  let size ← hlsInteger digits
  failIf (size = 0 || maxSegment < size) "Excessive byte range."
  let start ← (if rest.isEmpty then
    pure (previous.bind (fun previous => if previous.path = path then previous.rangeEnd else none))
    else (hlsInteger (rest.drop 1)).map some)
  match start with
  | none => fail "Implicit byte range has no predecessor."
  | some start => do
    let stop ← safe (start + size)
    pure (start,stop)
def encryptedContext (key : Option Key) (sequence : Nat) : Option Encryption :=
  key.map (fun key => ⟨"AES-128",key.keyPath,key.iv.getD (hexPadded sequence),"identity"⟩)

structure Catalogue where
  records : List MediaRecord
  assets : List Text
  keys : List Text
deriving DecidableEq
structure Options where
  path : Text
  level : Nat
  mediaType : String
  allowEncryptedMedia : Bool
  previousCatalogue : Option Catalogue
/-- What is known between two lines. An empty range is none. -/
structure Reading where
  records : List MediaRecord
  assets : List Text
  keys : List Text
  sequence : Nat
  discontinuity : Nat
  range : Text
  previous : Option MediaRecord
  duration : Bool
  partIndex : Nat
  key : Option Key
  map : Option MediaMap
  skipSeen : Bool
  mediaSeen : Bool
def Reading.start : Reading where
  records := []
  assets := []
  keys := []
  sequence := 0
  discontinuity := 0
  range := []
  previous := none
  duration := false
  partIndex := 0
  key := none
  map := none
  skipSeen := false
  mediaSeen := false

def MediaRecord.assets (record : MediaRecord) : List Text := record.path :: (record.map.map (·.path)).toList
def MediaRecord.keys (record : MediaRecord) : List Text := (record.encryption.map (·.keyPath)).toList
def add (record : MediaRecord) (s : Reading) : Except String Reading := do
  failIf (maxRecords < s.records.length + 1) "Excessive playlist length."
  pure { s with
    records := s.records ++ [record]
    assets := s.assets ++ record.assets
    keys := s.keys ++ record.keys }
/-- The record of a URI here. -/
def makeRecord (tools : Tools) (o : Options) (s : Reading) (uri rangeText : Text) (part : Option Nat) :
    Except String MediaRecord := do
  let mediaPath ← localMediaPath tools uri o.path
  let range ← (if rangeText.isEmpty then pure none else (byteRange rangeText mediaPath s.previous).map some)
  pure ⟨mediaPath,o.path,o.mediaType,o.level,s.sequence,s.discontinuity,part,range.map (·.1),range.map (·.2),
    encryptedContext s.key s.sequence,s.map,s.key.bind (·.iv)⟩

/-! ### Lines -/

/-- A line by its first characters, with what follows them. -/
inductive Tag where
  | mediaSequence (value : Text)
  | discontinuitySequence (value : Text)
  | discontinuity
  | key (attrs : Text)
  | map (attrs : Text)
  | skip (attrs : Text)
  | part (attrs : Text)
  | duration (value : Text)
  | byteRange (value : Text)
  | uri (uri : Text)
  | other
deriving DecidableEq
def follows (start : String) (line : Text) : Option Text :=
  if start.toList.isPrefixOf line then some (line.drop start.toList.length) else none
def tagOf (line : Text) : Tag :=
  if let some value := follows "#EXT-X-MEDIA-SEQUENCE:" line then .mediaSequence value
  else if let some value := follows "#EXT-X-DISCONTINUITY-SEQUENCE:" line then .discontinuitySequence value
  else if line = "#EXT-X-DISCONTINUITY".toList then .discontinuity
  else if let some attrs := follows "#EXT-X-KEY:" line then .key attrs
  else if let some attrs := follows "#EXT-X-MAP:" line then .map attrs
  else if let some attrs := follows "#EXT-X-SKIP:" line then .skip attrs
  else if let some attrs := follows "#EXT-X-PART:" line then .part attrs
  else if let some value := follows "#EXTINF:" line then .duration value
  else if let some value := follows "#EXT-X-BYTERANGE:" line then .byteRange value
  else if line.head? ≠ some '#' then .uri line
  else .other

def hexIv (iv : Text) : Bool :=
  iv.length = 34 && iv.head? = some '0' && (iv.drop 1).head?.any (fun c => c = 'x' || c = 'X') &&
    (iv.drop 2).all (fun c => isDigit c || ('a' ≤ c && c ≤ 'f') || ('A' ≤ c && c ≤ 'F'))
def readKey (tools : Tools) (o : Options) (s : Reading) (text : Text) : Except String Reading := do
  let attrs ← attributes text
  if attr attrs "METHOD" = "NONE".toList then pure { s with key := none }
  else
    failIf (!o.allowEncryptedMedia) "Encrypted HLS requires explicit key publication consent."
    failIf (attr attrs "METHOD" ≠ "AES-128".toList ||
        (!(attr attrs "KEYFORMAT").isEmpty && attr attrs "KEYFORMAT" ≠ "identity".toList) ||
        (!(attr attrs "KEYFORMATVERSIONS").isEmpty && attr attrs "KEYFORMATVERSIONS" ≠ "1".toList))
      "Only identity AES-128 encryption is supported."
    failIf (!(attr attrs "IV").isEmpty && !hexIv (attr attrs "IV")) "Invalid encryption IV."
    let keyPath ← localMediaPath tools (attr attrs "URI") o.path
    let iv := if (attr attrs "IV").isEmpty then none else some (((attr attrs "IV").drop 2).map Char.toLower)
    pure { s with key := some ⟨keyPath,iv⟩, keys := s.keys ++ [keyPath] }
def readMap (tools : Tools) (o : Options) (s : Reading) (text : Text) : Except String Reading := do
  let attrs ← attributes text
  let uri ← localMediaPath tools (attr attrs "URI") o.path
  failIf (s.key.any (fun key => key.iv.isNone)) "Encrypted init maps require an explicit IV."
  let range ← (if (attr attrs "BYTERANGE").isEmpty then pure none
    else (byteRange (attr attrs "BYTERANGE") uri none).map some)
  pure { s with map := some ⟨uri,range.map (·.1),range.map (·.2)⟩, assets := s.assets ++ [uri] }
def addAll : List MediaRecord → Reading → Except String Reading
  | [],s => pure s
  | record :: rest,s => do
    let s ← add record s
    addAll rest s
/-- The records of these sequence numbers are restored, and the last segment is found. -/
def restore (previous : Catalogue) : List Nat → Option MediaRecord → Reading →
    Except String (Option MediaRecord × Reading)
  | [],last,s => pure (last,s)
  | sn :: rest,_,s =>
    let restored := previous.records.filter (·.sequence = sn)
    match restored.find? (·.part = none) with
    | none => fail "Delta playlist skips unavailable contexts."
    | some last => do
      let s ← addAll restored s
      restore previous rest (some last) s
/-- Segments are skipped: what they left behind is what their last one had. -/
def readSkip (o : Options) (s : Reading) (text : Text) : Except String Reading := do
  failIf (s.skipSeen || s.mediaSeen) "Invalid delta playlist ordering."
  let attrs ← attributes text
  let count ← hlsInteger (attr attrs "SKIPPED-SEGMENTS")
  match o.previousCatalogue with
  | none => fail "Delta playlist has no verified predecessor."
  | some previous =>
    failIf (count = 0 || maxRecords < count) "Delta playlist has no verified predecessor."
    let endSequence ← safe (s.sequence + count)
    let restored ← restore previous (List.range' s.sequence count) none s
    match restored.1 with
    | none => fail "Delta playlist skips unavailable contexts."
    | some last =>
      pure { restored.2 with
        previous := some last
        discontinuity := last.discontinuity
        key := last.encryption.map (fun encryption => ⟨encryption.keyPath,last.keyIv⟩)
        map := last.map
        sequence := endSequence
        skipSeen := true }
def readPart (tools : Tools) (o : Options) (s : Reading) (text : Text) : Except String Reading := do
  let attrs ← attributes text
  failIf (!(tools.number (attr attrs "DURATION")).positive || !(tools.number (attr attrs "DURATION")).isFinite)
    "Invalid part duration."
  if attr attrs "GAP" = "YES".toList then do
    failIf (maxParts < s.partIndex + 1) "Excessive parts per segment."
    pure { s with partIndex := s.partIndex + 1 }
  else do
    let part ← makeRecord tools o s (attr attrs "URI") (attr attrs "BYTERANGE") (some s.partIndex)
    let added ← add part s
    failIf (maxParts < s.partIndex + 1) "Excessive parts per segment."
    pure { added with partIndex := s.partIndex + 1, previous := some part, mediaSeen := true }
def readUri (tools : Tools) (o : Options) (s : Reading) (uri : Text) : Except String Reading := do
  failIf (!s.duration) "Media URI has no duration."
  let segment ← makeRecord tools o s uri s.range none
  let added ← add segment s
  let sequence ← safe (s.sequence + 1)
  pure { added with
    previous := some segment, sequence := sequence, partIndex := 0, range := [], duration := false, mediaSeen := true }
def readTag (tools : Tools) (o : Options) (s : Reading) : Tag → Except String Reading
  | .mediaSequence value => do
    failIf (s.mediaSeen || s.skipSeen) "Late media sequence."
    let sequence ← hlsInteger value
    pure { s with sequence := sequence }
  | .discontinuitySequence value => do
    failIf (s.mediaSeen || s.skipSeen) "Late discontinuity sequence."
    let discontinuity ← hlsInteger value
    pure { s with discontinuity := discontinuity }
  -- such a count ends at the first number that is not safe
  | .discontinuity => pure { s with discontinuity := min (s.discontinuity + 1) (maxSafe + 1) }
  | .key attrs => readKey tools o s attrs
  | .map attrs => readMap tools o s attrs
  | .skip attrs => readSkip o s attrs
  | .part attrs => readPart tools o s attrs
  | .duration value => do
    failIf (s.duration || !(tools.number (value.takeWhile (· ≠ ','))).positive) "Invalid segment duration."
    pure { s with duration := true }
  | .byteRange value => do
    failIf (!s.range.isEmpty) "Invalid byte range."
    pure { s with range := value }
  | .uri uri => readUri tools o s uri
  | .other => pure s
def readLines (tools : Tools) (o : Options) : List Text → Reading → Except String Reading
  | [],s => pure s
  | line :: rest,s => do
    let s ← readTag tools o s (tagOf line)
    readLines tools o rest s
def conclude (o : Options) (s : Reading) : Except String Catalogue := do
  failIf (!s.range.isEmpty || s.duration || s.records.isEmpty) "Incomplete media playlist."
  failIf (s.keys.any (fun keyPath => keyPath ∈ s.assets || keyPath = o.path)) "Encryption keys cannot be media assets."
  pure ⟨s.records,s.assets,s.keys⟩
def parseHlsMedia (tools : Tools) (o : Options) (text : Text) : Except String Catalogue := do
  let all ← lines text
  let s ← readLines tools o all Reading.start
  conclude o s

end RelaySwarm.HlsMedia
