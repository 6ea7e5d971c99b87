import RelaySwarm.JsonRoundTrip

/-!
Numbers as bytes: natural numbers with the lowest byte first, and the 64 bits of a
double. What is written is read back, for a natural number that fits
(`fromLittle_little`) and for a double whose significand and exponent fit
(`ofBits_bits`), which every natural number below 2^53 is (`ofBits_whole`).
-/
namespace RelaySwarm.Wire
open JsonText

/-! ### Bytes -/

variable {n m : Nat} {q : ℚ} {e : Int}
/-- The bytes of a natural number, the lowest first; what is beyond them is lost. -/
def little : Nat → Nat → List UInt8
  | 0,_ => []
  | width+1,n => .ofNat n :: little width (n / 256)
def fromLittle : List UInt8 → Nat
  | [] => 0
  | byte :: rest => byte.toNat + 256 * fromLittle rest

@[simp] theorem little_length (width n : Nat) : (little width n).length = width := by
  induction width generalizing n with
  | zero => rfl
  | succ width ih => simp [little,ih]
theorem fromLittle_little {width n : Nat} (fits : n < 256 ^ width) : fromLittle (little width n) = n := by
  induction width generalizing n with
  | zero =>
    have zero : n = 0 := by simpa using fits
    rw [zero]
    rfl
  | succ width ih =>
    have rest : n / 256 < 256 ^ width := Nat.div_lt_of_lt_mul (by rwa [pow_succ'] at fits)
    rw [little,fromLittle,ih rest,UInt8.toNat_ofNat']
    omega

/-! ### Doubles -/

/-- A double; the zero with a sign counts as zero. -/
inductive Double where
  | nan
  | infinite (negative : Bool)
  | finite (value : ℚ)
deriving DecidableEq

def exponent (q : ℚ) : Int := max (Int.log 2 q) (-1022)
def significand (q : ℚ) : Nat := ⌊q / 2 ^ (exponent q - 52)⌋.toNat
def magnitudeBits (q : ℚ) : Nat :=
  if q = 0 then 0
  else if significand q < 2 ^ 52 then significand q
  else (exponent q + 1023).toNat * 2 ^ 52 + (significand q - 2 ^ 52)
/-- The 64 bits of a double. -/
def Double.bits : Double → Nat
  | .nan => 2047 * 2 ^ 52 + 2 ^ 51
  | .infinite negative => (if negative then 2 ^ 63 else 0) + 2047 * 2 ^ 52
  | .finite value => (if value < 0 then 2 ^ 63 else 0) + magnitudeBits |value|
/-- The double of 64 bits. -/
def ofBits (bits : Nat) : Double :=
  let negative := decide (2 ^ 63 ≤ bits)
  let exponent : Nat := bits / 2 ^ 52 % 2048
  let fraction : Nat := bits % 2 ^ 52
  if exponent = 2047 then if fraction = 0 then .infinite negative else .nan
  else
    let magnitude : ℚ :=
      if exponent = 0 then (fraction : ℚ) * 2 ^ (-1074 : Int)
      else ((2 ^ 52 + fraction : Nat) : ℚ) * 2 ^ ((exponent : Int) - 1075)
    .finite (if negative then -magnitude else magnitude)

/-- A positive number with the significand and the exponent of a double. -/
structure Fits (q : ℚ) (m : Nat) (e : Int) : Prop where
  value : q = m * 2 ^ (e - 52)
  positive : 0 < m
  short : m < 2 ^ 53
  low : -1022 ≤ e
  high : e ≤ 1023
  normal : 2 ^ 52 ≤ m ∨ e = -1022

theorem Fits.above (fits : Fits q m e) : 0 < q := by
  rw [fits.value]
  exact mul_pos (Nat.cast_pos.mpr fits.positive) (zpow_pos two_pos _)
theorem Fits.exponent_eq (fits : Fits q m e) : exponent q = e := by
  have base : (1 : ℕ) < 2 := one_lt_two
  have above := fits.above
  have below : Int.log 2 q < e + 1 := by
    rw [← Int.lt_zpow_iff_log_lt base above,fits.value]
    have short : (m : ℚ) < 2 ^ 53 := by exact_mod_cast fits.short
    calc (m : ℚ) * 2 ^ (e - 52) < 2 ^ 53 * 2 ^ (e - 52) := mul_lt_mul_of_pos_right short (zpow_pos two_pos _)
      _ = ((2 : ℕ) : ℚ) ^ (e + 1) := by
        rw [← zpow_natCast,← zpow_add₀ (by norm_num)]
        congr 1
        push_cast
        ring
  unfold exponent
  rcases fits.normal with wide | least
  · have reached : e ≤ Int.log 2 q := by
      rw [← Int.zpow_le_iff_le_log base above,fits.value]
      have wide : (2 : ℚ) ^ 52 ≤ m := by exact_mod_cast wide
      calc ((2 : ℕ) : ℚ) ^ e = 2 ^ 52 * 2 ^ (e - 52) := by
            rw [← zpow_natCast,← zpow_add₀ (by norm_num)]
            congr 1
            push_cast
            ring
        _ ≤ m * 2 ^ (e - 52) := mul_le_mul_of_nonneg_right wide (zpow_pos two_pos _).le
    have := fits.low
    omega
  · omega
theorem Fits.significand_eq (fits : Fits q m e) : significand q = m := by
  have whole : q / 2 ^ (exponent q - 52) = (m : ℚ) := by
    rw [fits.exponent_eq,fits.value]
    exact mul_div_cancel_right₀ _ (zpow_ne_zero _ two_ne_zero)
  rw [significand,whole,Int.floor_natCast,Int.toNat_natCast]

theorem Fits.bits_eq (fits : Fits q m e) :
    (Double.finite q).bits = if m < 2 ^ 52 then m else (e + 1023).toNat * 2 ^ 52 + (m - 2 ^ 52) := by
  have above := fits.above
  rw [Double.bits,if_neg (not_lt.mpr above.le),abs_of_pos above,Nat.zero_add]
  rw [magnitudeBits,if_neg above.ne',fits.significand_eq,fits.exponent_eq]
theorem Fits.bits_lt (fits : Fits q m e) : (Double.finite q).bits < 2 ^ 64 := by
  have short := fits.short
  have high := fits.high
  rw [fits.bits_eq]
  split <;> omega
theorem ofBits_bits (fits : Fits q m e) : ofBits (Double.finite q).bits = .finite q := by
  rw [fits.bits_eq]
  obtain ⟨value,_,short,low,high,normal⟩ := fits
  by_cases small : m < 2 ^ 52
  · have least : e = -1022 := normal.resolve_left (by omega)
    rw [if_pos small]
    have exponent : m / 2 ^ 52 % 2048 = 0 := by omega
    have fraction : m % 2 ^ 52 = m := Nat.mod_eq_of_lt small
    have sign : ¬ 2 ^ 63 ≤ m := by omega
    rw [ofBits]
    simp only [exponent,fraction,sign,decide_false,if_true,if_false,Bool.false_eq_true,value,least]
    norm_num
  · rw [if_neg small]
    obtain ⟨k,biased⟩ : ∃ k : Nat, e + 1023 = k := ⟨(e + 1023).toNat,by omega⟩
    have filled : 0 < k := by omega
    have few : k < 2047 := by omega
    rw [biased,Int.toNat_natCast]
    have exponent : (k * 2 ^ 52 + (m - 2 ^ 52)) / 2 ^ 52 % 2048 = k := by omega
    have fraction : (k * 2 ^ 52 + (m - 2 ^ 52)) % 2 ^ 52 = m - 2 ^ 52 := by omega
    have sign : ¬ 2 ^ 63 ≤ k * 2 ^ 52 + (m - 2 ^ 52) := by omega
    have whole : 2 ^ 52 + (m - 2 ^ 52) = m := by omega
    have power : (k : Int) - 1075 = e - 52 := by omega
    rw [ofBits]
    simp only [exponent,fraction,sign,whole,power,decide_false,if_false,Bool.false_eq_true,
      show ¬ k = 2047 by omega,show ¬ k = 0 by omega,value]

def asDouble (n : Nat) : Double := (double n).elim (.infinite false) .finite

theorem whole_fits (positive : 0 < n) (small : n < 2 ^ 53) :
    Fits n (n * 2 ^ (52 - Nat.log 2 n)) (Nat.log 2 n) := by
  have power : Nat.log 2 n ≤ 52 := Nat.lt_succ_iff.mp (Nat.log_lt_of_lt_pow (by omega) small)
  have split : 2 ^ Nat.log 2 n * 2 ^ (52 - Nat.log 2 n) = 2 ^ 52 := by rw [← pow_add]; congr 1; omega
  have low := Nat.pow_log_le_self 2 (by omega : n ≠ 0)
  have high := Nat.lt_pow_succ_log_self one_lt_two n
  refine ⟨?_,by positivity,?_,by omega,by omega,.inl ?_⟩
  · have back : ((Nat.log 2 n : Int) - 52) = -((52 - Nat.log 2 n : Nat) : Int) := by omega
    rw [back,zpow_neg,zpow_natCast]
    push_cast
    field_simp
  · calc n * 2 ^ (52 - Nat.log 2 n) < 2 ^ (Nat.log 2 n + 1) * 2 ^ (52 - Nat.log 2 n) :=
          Nat.mul_lt_mul_of_pos_right high (by positivity)
      _ = 2 * (2 ^ Nat.log 2 n * 2 ^ (52 - Nat.log 2 n)) := by ring
      _ = 2 ^ 53 := by rw [split]; norm_num
  · rw [← split]
    exact Nat.mul_le_mul_right _ low
theorem asDouble_whole (small : n < 2 ^ 53) : asDouble n = .finite n := by
  have exact' : double (n : ℚ) = some (n : ℚ) := by exact_mod_cast double_whole (n := (n : Int)) (by simpa using small)
  rw [asDouble,exact']
  rfl
theorem ofBits_whole (small : n < 2 ^ 53) : ofBits (asDouble n).bits = .finite n := by
  rw [asDouble_whole small]
  by_cases zero : n = 0
  · subst zero
    decide +kernel
  · exact ofBits_bits (whole_fits (Nat.pos_of_ne_zero zero) small)
theorem whole_bits (small : n < 2 ^ 53) : (asDouble n).bits < 2 ^ 64 := by
  rw [asDouble_whole small]
  by_cases zero : n = 0
  · subst zero
    decide +kernel
  · exact (whole_fits (Nat.pos_of_ne_zero zero) small).bits_lt
theorem ofBits_nan : ofBits Double.nan.bits = .nan := by decide +kernel
end RelaySwarm.Wire
