import Mathlib.Algebra.BigOperators.Group.List.Basic
import Mathlib.Algebra.Order.Ring.Int

/-!
The primitive checks the scripts make of their inputs. Numbers are integers; one
that is not a safe integer is refused wherever a script checks its input.
-/
namespace RelaySwarm.Script

def maxSafe : Int := 9007199254740991
def isSafeInteger (n : Int) : Bool := -maxSafe ≤ n && n ≤ maxSafe
/-- So many lower-case hex digits and nothing else. -/
def hex (value : String) (length : Nat) : Bool :=
  value.toList.length = length && value.toList.all (fun c => ('0' ≤ c && c ≤ '9') || ('a' ≤ c && c ≤ 'f'))
def unitsOf (value : List Char) : Nat := (value.map (fun c => if c.toNat < 0x10000 then 1 else 2)).sum
def units (value : String) : Nat := unitsOf value.toList
def byteLength (value : String) : Nat := value.utf8ByteSize

def hexDigit (n : Nat) : Char := if n < 10 then Char.ofNat (48 + n) else Char.ofNat (87 + n)
/-- A character as it stands in a JSON text. -/
def escape (c : Char) : List Char :=
  match c with
  | '"' => ['\\','"']
  | '\\' => ['\\','\\']
  | '\n' => ['\\','n']
  | '\r' => ['\\','r']
  | '\t' => ['\\','t']
  | c =>
    if c.toNat = 8 then ['\\','b'] else if c.toNat = 12 then ['\\','f']
    else if c.toNat < 32 then ['\\','u','0','0',hexDigit (c.toNat / 16),hexDigit (c.toNat % 16)] else [c]
def writeString (text : String) : List Char := '"' :: text.toList.flatMap escape ++ ['"']

@[simp] theorem unitsOf_append (a b : List Char) : unitsOf (a ++ b) = unitsOf a + unitsOf b := by
  simp [unitsOf]
@[simp] theorem unitsOf_cons (c : Char) (rest : List Char) :
    unitsOf (c :: rest) = (if c.toNat < 0x10000 then 1 else 2) + unitsOf rest := by
  simp [unitsOf]

end RelaySwarm.Script
