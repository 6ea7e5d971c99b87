import Mathlib.Data.Int.Log
import Mathlib.Data.List.Sort
import Mathlib.Data.Rat.Floor

/-!
JSON texts as a script reads and writes them. A text is a list of UTF-16 units. A
number is the double it reads as; the fields of an object are its own properties, in
their order. `parse` reads one value and nothing behind it, and `write` is the text of a
value without spaces. Bytes become a text as UTF-8, with U+FFFD for what is none.
-/
namespace RelaySwarm.JsonText

/-- UTF-16 units. -/
abbrev Text := List Nat
def lit (text : String) : Text := text.toList.map Char.toNat

inductive Value where
  | null
  | bool (value : Bool)
  | number (value : ℚ)
  | infinity (negative : Bool)
  | string (text : Text)
  | array (items : List Value)
  | object (fields : List (Text × Value))

/-! ### Numbers -/

/-- The nearest integer, ties to even. -/
def roundEven (q : ℚ) : ℤ :=
  let down := ⌊q⌋
  if q - down < 1 / 2 then down else if 1 / 2 < q - down then down + 1 else if down % 2 = 0 then down else down + 1
/-- The double nearest to a number, if it is finite. -/
def double (q : ℚ) : Option ℚ :=
  let unit : ℚ := 2 ^ max (Int.log 2 |q| - 52) (-1074)
  let rounded := roundEven (q / unit) * unit
  if 2 ^ 1024 ≤ |rounded| then none else some rounded
def ofRational (q : ℚ) : Value :=
  match double q with
  | some value => .number value
  | none => .infinity (q < 0)

/-- The decimal digits of a natural number, before those of `behind`. -/
def decimalAux : Nat → Nat → Text → Text
  | 0,_,behind => behind
  | fuel+1,n,behind => if n < 10 then (48 + n) :: behind else decimalAux fuel (n / 10) ((48 + n % 10) :: behind)
def decimal (n : Nat) : Text := decimalAux (n + 1) n []
/-- The fewest digits that read as this positive double, and where the point stands;
    of several the closest, and of two of these the even one. -/
def shortest (x : ℚ) : Nat × Int :=
  let point := Int.log 10 x + 1
  let tries := (List.range' 1 17).filterMap (fun (k : Nat) =>
    let unit : ℚ := 10 ^ (point - (k : Int))
    let down := ⌊x / unit⌋.toNat
    let rest := x / unit - down
    let best := if rest < 1 / 2 ∨ rest = 1 / 2 ∧ down % 2 = 0 then [down,down + 1] else [down + 1,down]
    (best.find? (fun (digits : Nat) => double ((digits : ℚ) * unit) = some x)).map (fun digits => (digits,k)))
  match tries with
  | [] => (0,0)
  | (digits,k) :: _ => if digits = 10 ^ k then (digits / 10,point + 1) else (digits,point)
/-- A double as a script writes it. -/
def writeNumber (q : ℚ) : Text :=
  let sign := if q < 0 then [45] else []
  if q.den = 1 ∧ q.num.natAbs ≤ 2 ^ 53 then sign ++ decimal q.num.natAbs
  else
    let (s,n) := shortest |q|
    let digits := decimal s
    let k : Int := digits.length
    sign ++
      if k ≤ n ∧ n ≤ 21 then digits ++ List.replicate (n - k).toNat 48
      else if 0 < n ∧ n ≤ 21 then digits.take n.toNat ++ 46 :: digits.drop n.toNat
      else if -6 < n ∧ n ≤ 0 then 48 :: 46 :: List.replicate (-n).toNat 48 ++ digits
      else
        let exponent := (if 0 ≤ n - 1 then 43 else 45) :: decimal (n - 1).natAbs
        match digits with
        | [] => []
        | [digit] => digit :: 101 :: exponent
        | digit :: more => digit :: 46 :: more ++ 101 :: exponent

/-! ### Reading -/

def space (unit : Nat) : Bool := unit = 32 || unit = 9 || unit = 10 || unit = 13
def skip (text : Text) : Text := text.dropWhile space
def digit (unit : Nat) : Bool := 48 ≤ unit && unit ≤ 57
def digits (text : Text) : Text × Text := text.span digit
def ofDigits (text : Text) : Nat := text.foldl (fun n unit => n * 10 + (unit - 48)) 0

/-- Digits behind a point, if there is one. -/
def readFraction (text : Text) : Option (ℚ × Text) :=
  match text with
  | 46 :: rest =>
    let (part,rest) := digits rest
    if part = [] then none else some ((ofDigits part : ℚ) / 10 ^ part.length,rest)
  | text => some (0,text)
/-- The power of ten, if there is one. -/
def readExponent (text : Text) : Option (ℚ × Text) :=
  match text with
  | unit :: rest =>
    if unit = 101 ∨ unit = 69 then
      let (negative,rest) := match rest with
        | 45 :: rest => (true,rest)
        | 43 :: rest => (false,rest)
        | rest => (false,rest)
      let (power,rest) := digits rest
      if power = [] then none
      else some (if negative then 1 / 10 ^ ofDigits power else 10 ^ ofDigits power,rest)
    else some (1,text)
  | [] => some (1,[])
/-- A zero, or digits that do not begin with one. -/
def readWhole (text : Text) : Option (Nat × Text) :=
  match text with
  | 48 :: rest => some (0,rest)
  | text =>
    let (part,rest) := digits text
    if part = [] then none else some (ofDigits part,rest)
def readMagnitude (text : Text) : Option (ℚ × Text) :=
  (readWhole text).bind (fun whole => (readFraction whole.2).bind (fun fraction =>
    (readExponent fraction.2).map (fun power => ((whole.1 + fraction.1) * power.1,power.2))))
def readNumber (text : Text) : Option (Value × Text) :=
  match text with
  | 45 :: rest => (readMagnitude rest).map (fun number => (ofRational (-number.1),number.2))
  | text => (readMagnitude text).map (fun number => (ofRational number.1,number.2))

def hexValue (unit : Nat) : Option Nat :=
  if 48 ≤ unit ∧ unit ≤ 57 then some (unit - 48)
  else if 97 ≤ unit ∧ unit ≤ 102 then some (unit - 87)
  else if 65 ≤ unit ∧ unit ≤ 70 then some (unit - 55)
  else none
/-- The unit of four hexadecimal digits. -/
def hexUnit (a b c d : Nat) : Option Nat :=
  (hexValue a).bind (fun a => (hexValue b).bind (fun b => (hexValue c).bind (fun c =>
    (hexValue d).map (fun d => ((a * 16 + b) * 16 + c) * 16 + d))))
/-- What a unit behind a backslash stands for. -/
def unescape (unit : Nat) : Option Nat :=
  match unit with
  | 34 => some 34
  | 92 => some 92
  | 47 => some 47
  | 98 => some 8
  | 102 => some 12
  | 110 => some 10
  | 114 => some 13
  | 116 => some 9
  | _ => none
/-- A string up to its closing quote. -/
def readString : Text → Option (Text × Text)
  | [] => none
  | 34 :: rest => some ([],rest)
  | 92 :: 117 :: a :: b :: c :: d :: rest =>
    match hexUnit a b c d with
    | none => none
    | some unit => (readString rest).map (fun read => (unit :: read.1,read.2))
  | 92 :: escaped :: rest =>
    match unescape escaped with
    | none => none
    | some unit => (readString rest).map (fun read => (unit :: read.1,read.2))
  | unit :: rest => if unit < 32 ∨ unit = 92 then none else (readString rest).map (fun read => (unit :: read.1,read.2))

/-- A field of an object; one that is there keeps its place. -/
def put (fields : List (Text × Value)) (member : Text × Value) : List (Text × Value) :=
  if fields.any (·.1 = member.1) then
    fields.map (fun field => if field.1 = member.1 then member else field)
  else fields ++ [member]
/-- A key that is an array index. -/
def indexKey (key : Text) : Option Nat :=
  if (key = [48] ∨ (key ≠ [] ∧ key.head? ≠ some 48)) ∧ key.all digit = true ∧
    ofDigits key < 2 ^ 32 - 1 then some (ofDigits key)
  else none
/-- The own properties of an object with these members: indices ascend, the others
    follow in the order they were made. -/
def own (members : List (Text × Value)) : List (Text × Value) :=
  let fields := members.foldl put []
  (fields.filter (fun field => (indexKey field.1).isSome)).insertionSort (fun a b =>
      (indexKey a.1).getD 0 ≤ (indexKey b.1).getD 0) ++
    fields.filter (fun field => (indexKey field.1).isNone)

mutual
/-- A value and what is behind it. -/
def readValue : Nat → Text → Option (Value × Text)
  | 0,_ => none
  | fuel+1,text =>
    match skip text with
    | 123 :: rest =>
      match skip rest with
      | 125 :: rest => some (.object [],rest)
      | rest => (readMembers fuel rest).map (fun read => (.object (own read.1),read.2))
    | 91 :: rest =>
      match skip rest with
      | 93 :: rest => some (.array [],rest)
      | rest => (readItems fuel rest).map (fun read => (.array read.1,read.2))
    | 34 :: rest => (readString rest).map (fun read => (.string read.1,read.2))
    | 116 :: 114 :: 117 :: 101 :: rest => some (.bool true,rest)
    | 102 :: 97 :: 108 :: 115 :: 101 :: rest => some (.bool false,rest)
    | 110 :: 117 :: 108 :: 108 :: rest => some (.null,rest)
    | rest => readNumber rest
/-- The items of an array up to its closing bracket. -/
def readItems : Nat → Text → Option (List Value × Text)
  | 0,_ => none
  | fuel+1,text =>
    match readValue fuel text with
    | none => none
    | some (item,rest) =>
      match skip rest with
      | 44 :: rest => (readItems fuel rest).map (fun read => (item :: read.1,read.2))
      | 93 :: rest => some ([item],rest)
      | _ => none
/-- The members of an object up to its closing brace. -/
def readMembers : Nat → Text → Option (List (Text × Value) × Text)
  | 0,_ => none
  | fuel+1,text =>
    match skip text with
    | 34 :: rest =>
      match readString rest with
      | none => none
      | some (key,rest) =>
        match skip rest with
        | 58 :: rest =>
          match readValue fuel rest with
          | none => none
          | some (item,rest) =>
            match skip rest with
            | 44 :: rest => (readMembers fuel rest).map (fun read => ((key,item) :: read.1,read.2))
            | 125 :: rest => some ([(key,item)],rest)
            | _ => none
        | _ => none
    | _ => none
end
/-- `JSON.parse`. -/
def parse (text : Text) : Option Value :=
  match readValue (2 * text.length + 2) text with
  | none => none
  | some (value,rest) => if skip rest = [] then some value else none

/-! ### Writing -/

def high (unit : Nat) : Bool := 0xD800 ≤ unit && unit ≤ 0xDBFF
def low (unit : Nat) : Bool := 0xDC00 ≤ unit && unit ≤ 0xDFFF
def hexDigit (n : Nat) : Nat := if n < 10 then 48 + n else 87 + n
def hexEscape (unit : Nat) : Text :=
  [92,117,hexDigit (unit / 4096 % 16),hexDigit (unit / 256 % 16),hexDigit (unit / 16 % 16),hexDigit (unit % 16)]
/-- A unit as it stands in a string; half of a pair stands for itself. -/
def escape (paired : Bool) (unit : Nat) : Text :=
  match unit with
  | 8 => [92,98]
  | 9 => [92,116]
  | 10 => [92,110]
  | 12 => [92,102]
  | 13 => [92,114]
  | 34 => [92,34]
  | 92 => [92,92]
  | unit => if unit < 32 ∨ ((high unit ∨ low unit) ∧ paired = false) then hexEscape unit else [unit]
/-- The units of a string, after the unit before them. -/
def escapeAll : Option Nat → Text → Text
  | _,[] => []
  | before,unit :: rest =>
    let paired := high unit && rest.head?.any low || low unit && before.any high
    escape paired unit ++ escapeAll (some unit) rest
def quote (text : Text) : Text := 34 :: escapeAll none text ++ [34]
/-- Texts with commas between them. -/
def commas : List Text → Text
  | [] => []
  | [text] => text
  | text :: rest => text ++ 44 :: commas rest

mutual
/-- `JSON.stringify`. -/
def write : Value → Text
  | .null => lit "null"
  | .bool true => lit "true"
  | .bool false => lit "false"
  | .number value => writeNumber value
  | .infinity _ => lit "null"
  | .string text => quote text
  | .array items => 91 :: commas (writeItems items) ++ [93]
  | .object fields => 123 :: commas (writeFields fields) ++ [125]
def writeItems : List Value → List Text
  | [] => []
  | item :: rest => write item :: writeItems rest
def writeFields : List (Text × Value) → List Text
  | [] => []
  | (key,item) :: rest => (quote key ++ 58 :: write item) :: writeFields rest
end

/-- A property of an object. -/
def field (fields : List (Text × Value)) (key : Text) : Option Value :=
  (fields.find? (·.1 = key)).map (·.2)

/-! ### Bytes -/

/-- A UTF-8 sequence begun: the bytes it needs, its bits so far and the bounds of its
    next byte. -/
structure Sequence where
  needed : Nat
  bits : Nat
  lower : Nat
  upper : Nat
def Sequence.idle : Sequence := ⟨0,0,0x80,0xBF⟩
/-- The units of a code point. -/
def codePoint (point : Nat) : Text :=
  if point < 0x10000 then [point]
  else [0xD800 + (point - 0x10000) / 0x400,0xDC00 + (point - 0x10000) % 0x400]
/-- A byte where no sequence is begun. -/
def leadByte (byte : Nat) : Text × Sequence :=
  if byte < 0x80 then ([byte],.idle)
  else if 0xC2 ≤ byte ∧ byte ≤ 0xDF then ([],⟨1,byte % 32,0x80,0xBF⟩)
  else if 0xE0 ≤ byte ∧ byte ≤ 0xEF then
    ([],⟨2,byte % 16,if byte = 0xE0 then 0xA0 else 0x80,if byte = 0xED then 0x9F else 0xBF⟩)
  else if 0xF0 ≤ byte ∧ byte ≤ 0xF4 then
    ([],⟨3,byte % 8,if byte = 0xF0 then 0x90 else 0x80,if byte = 0xF4 then 0x8F else 0xBF⟩)
  else ([0xFFFD],.idle)
def utf8Byte (sequence : Sequence) (byte : Nat) : Text × Sequence :=
  if sequence.needed = 0 then leadByte byte
  else if byte < sequence.lower ∨ sequence.upper < byte then
    let next := leadByte byte
    (0xFFFD :: next.1,next.2)
  else
    let bits := sequence.bits * 64 + byte % 64
    if sequence.needed = 1 then (codePoint bits,.idle) else ([],⟨sequence.needed - 1,bits,0x80,0xBF⟩)
def utf8From : Sequence → List UInt8 → Text
  | sequence,[] => if sequence.needed = 0 then [] else [0xFFFD]
  | sequence,byte :: rest =>
    let next := utf8Byte sequence byte.toNat
    next.1 ++ utf8From next.2 rest
def utf8 (bytes : List UInt8) : Text := utf8From .idle bytes
/-- The UTF-8 bytes of a code point. -/
def pointBytes (point : Nat) : List UInt8 :=
  if point < 0x80 then [.ofNat point]
  else if point < 0x800 then [.ofNat (0xC0 + point / 64),.ofNat (0x80 + point % 64)]
  else if point < 0x10000 then
    [.ofNat (0xE0 + point / 4096),.ofNat (0x80 + point / 64 % 64),.ofNat (0x80 + point % 64)]
  else [.ofNat (0xF0 + point / 262144),.ofNat (0x80 + point / 4096 % 64),.ofNat (0x80 + point / 64 % 64),
    .ofNat (0x80 + point % 64)]
/-- The UTF-8 bytes of a text; half of a pair alone becomes U+FFFD. -/
def utf8Bytes : Text → List UInt8
  | [] => []
  | [unit] => pointBytes (if high unit ∨ low unit then 0xFFFD else unit)
  | first :: second :: rest =>
    if high first ∧ low second then
      pointBytes (0x10000 + (first - 0xD800) * 0x400 + (second - 0xDC00)) ++ utf8Bytes rest
    else pointBytes (if high first ∨ low first then 0xFFFD else first) ++ utf8Bytes (second :: rest)

end RelaySwarm.JsonText
