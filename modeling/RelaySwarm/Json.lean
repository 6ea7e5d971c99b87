import RelaySwarm.Script
import Mathlib.Algebra.Order.Ring.Rat

/-!
JSON values, and how the protocol reads them. A number is the double it reads as:
every check compares doubles. The keys of an object occur once.
-/
namespace RelaySwarm.Script

inductive Json where
  | null
  | bool (value : Bool)
  | number (value : Rat)
  | string (value : String)
  | array (items : List Json)
  | object (fields : List (String × Json))

/-- The value of a field. -/
def field (fields : List (String × Json)) (name : String) : Option Json :=
  (fields.find? (·.1 = name)).map (·.2)
def Json.asBool : Json → Option Bool
  | .bool value => some value
  | _ => none
def Json.asNumber : Json → Option Rat
  | .number value => some value
  | _ => none
def Json.asString : Json → Option String
  | .string value => some value
  | _ => none
def Json.asArray : Json → Option (List Json)
  | .array items => some items
  | _ => none

/-- `Number.isSafeInteger`. -/
def safeInteger (value : Json) : Option Int :=
  match value.asNumber with
  | none => none
  | some value => if value.den = 1 ∧ isSafeInteger value.num = true then some value.num else none
/-- A SHA-256 or a public key in lower-case hex. -/
def isHex64 (value : Json) : Bool :=
  match value.asString with
  | none => false
  | some text => hex text 64

/-- An integer as a double: the nearest one of 53 bits, ties to even. -/
def toDouble (n : Nat) : Nat :=
  let unit := 2 ^ (Nat.log2 n - 52)
  let down := n / unit * unit
  let rest := n % unit
  if 2 * rest < unit ∨ 2 * rest = unit ∧ n / unit % 2 = 0 then down else down + unit
def sameNumber (value : Option Json) (number : Nat) : Bool := value.bind Json.asNumber = some (toDouble number : Rat)

theorem safeInteger_safe {value : Json} {n : Int} (safe : safeInteger value = some n) :
    isSafeInteger n = true ∧ value.asNumber = some (n : Rat) := by
  unfold safeInteger at safe
  cases read : value.asNumber with
  | none =>
    rw [read] at safe
    cases safe
  | some number =>
    rw [read] at safe
    simp only [Option.ite_none_right_eq_some,Option.some.injEq] at safe
    obtain ⟨⟨whole,inside⟩,rfl⟩ := safe
    exact ⟨inside,congrArg some (Rat.eq_num_of_isInt (by simpa [Rat.isInt] using whole))⟩
theorem toDouble_small {n : Nat} (small : n < 2 ^ 53) : toDouble n = n := by
  have exponent : Nat.log2 n - 52 = 0 := by
    by_cases zero : n = 0
    · subst zero; rfl
    · have := (Nat.log2_lt zero).mpr small
      omega
  simp [toDouble,exponent,Nat.mod_one]
theorem toDouble_large {n : Nat} (large : 2 ^ 53 ≤ n) : 2 ^ 53 ≤ toDouble n := by
  have nonzero : n ≠ 0 := by
    rintro rfl
    exact absurd large (by decide)
  obtain ⟨k,exponent⟩ : ∃ k, Nat.log2 n = 53 + k := Nat.exists_eq_add_of_le ((Nat.le_log2 nonzero).mpr large)
  have low : 2 ^ (53 + k) ≤ n := exponent ▸ Nat.log2_self_le nonzero
  have down : 2 ^ 53 ≤ n / 2 ^ (Nat.log2 n - 52) * 2 ^ (Nat.log2 n - 52) := by
    rw [exponent,show 53 + k - 52 = k + 1 by omega]
    have split : 2 ^ (53 + k) = 2 ^ 52 * 2 ^ (k + 1) := by rw [← Nat.pow_add]; congr 1; omega
    have quotient : 2 ^ 52 ≤ n / 2 ^ (k + 1) := by
      rw [Nat.le_div_iff_mul_le (Nat.two_pow_pos _),← split]
      exact low
    calc 2 ^ 53 = 2 ^ 52 * 2 ^ 1 := rfl
      _ ≤ n / 2 ^ (k + 1) * 2 ^ (k + 1) := Nat.mul_le_mul quotient (Nat.pow_le_pow_right (by omega) (by omega))
  unfold toDouble
  simp only
  split_ifs <;> omega
theorem sameNumber_safe {value : Json} {n : Int} {number : Nat} (safe : safeInteger value = some n)
    (same : sameNumber (some value) number = true) : n = number := by
  obtain ⟨inside,read⟩ := safeInteger_safe safe
  simp only [sameNumber,Option.bind_some,read,decide_eq_true_eq,Option.some.injEq] at same
  have equal : n = (toDouble number : Int) := by exact_mod_cast same
  have bounded : n ≤ maxSafe := by
    simp only [isSafeInteger,Bool.and_eq_true,decide_eq_true_eq] at inside
    exact inside.2
  rcases Nat.lt_or_ge number (2 ^ 53) with small | large
  · rw [equal,toDouble_small small]
  · have := toDouble_large large
    unfold maxSafe at bounded
    omega

end RelaySwarm.Script
