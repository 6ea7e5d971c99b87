import RelaySwarm.JsonText
import Mathlib.Tactic.Ring
import Mathlib.Tactic.Linarith
import Mathlib.Tactic.NormNum
import Mathlib.Tactic.Positivity

/-!
What is written is read back. The text of a value of strings, safe whole numbers and
objects whose fields are in their own order reads as that value (`parse_write`).
-/
namespace RelaySwarm.JsonText

/-! ### Numbers -/

variable {n : ℤ} {rest : Text} {unit : Nat}
theorem roundEven_whole (n : ℤ) : roundEven n = n := by
  simp [roundEven]
theorem double_whole (small : n.natAbs < 2 ^ 53) : double n = some (n : ℚ) := by
  have magnitude : |(n : ℚ)| = (n.natAbs : ℚ) := by rw [Nat.cast_natAbs,Int.cast_abs]
  have finite : ¬ (2 : ℚ) ^ 1024 ≤ |(n : ℚ)| := by
    rw [magnitude,not_le]
    have inside : (n.natAbs : ℚ) < 2 ^ 53 := by exact_mod_cast small
    exact lt_of_lt_of_le inside (pow_le_pow_right₀ one_le_two (by omega))
  -- The unit is a negative power of two, so the quotient is whole.
  have power : Nat.log 2 n.natAbs ≤ 52 := Nat.lt_succ_iff.mp (Nat.log_lt_of_lt_pow' (by omega) small)
  have exponent : max (Int.log 2 |(n : ℚ)| - 52) (-1074) = -((52 - Nat.log 2 n.natAbs : ℕ) : ℤ) := by
    rw [magnitude,Int.log_natCast]
    omega
  have whole : (n : ℚ) / 2 ^ (-((52 - Nat.log 2 n.natAbs : ℕ) : ℤ)) =
      ((n * 2 ^ (52 - Nat.log 2 n.natAbs) : ℤ) : ℚ) := by
    rw [zpow_neg,zpow_natCast,div_inv_eq_mul]
    push_cast
    ring
  unfold double
  dsimp only
  rw [exponent,whole,roundEven_whole,← whole,div_mul_cancel₀ _ (zpow_ne_zero _ two_ne_zero),if_neg finite]
theorem ofRational_whole (small : n.natAbs < 2 ^ 53) : ofRational n = .number n := by
  rw [ofRational,double_whole small]

/-- What begins with no digit, point or exponent ends a number. -/
def Stops (rest : Text) : Prop := ∀ unit ∈ rest.head?, digit unit = false ∧ unit ≠ 46 ∧ unit ≠ 101 ∧ unit ≠ 69

theorem digits_append {part rest : Text} (all : ∀ unit ∈ part, digit unit = true)
    (stops : ∀ unit ∈ rest.head?, digit unit = false) : digits (part ++ rest) = (part,rest) := by
  rw [digits,List.span_eq_takeWhile_dropWhile,List.takeWhile_append_of_pos all,List.dropWhile_append_of_pos all]
  cases rest with
  | nil => simp
  | cons unit rest => simp [stops unit rfl]
/-- The digits of a number: there are some, none of them leads with zero but zero's own,
    and they are its digits. -/
structure Digits (n : Nat) (text : Text) : Prop where
  all : ∀ unit ∈ text, digit unit = true
  filled : text ≠ []
  lead : text.head? = some 48 → text = [48]
  value : ofDigits text = n
theorem ofDigits_append (a b : Text) :
    ofDigits (a ++ b) = b.foldl (fun n unit => n * 10 + (unit - 48)) (ofDigits a) := by
  rw [ofDigits,List.foldl_append]
  rfl
theorem decimalAux_eq (fuel : Nat) : ∀ (n : Nat), n < fuel → ∃ text :
    Text, Digits n text ∧ ∀ behind, decimalAux fuel n behind = text ++ behind := by
  induction fuel with
  | zero => intro n few; omega
  | succ fuel ih =>
    intro n few
    by_cases single : n < 10
    · refine ⟨[48 + n],⟨?_,by simp,?_,?_⟩,fun behind => ?_⟩
      · intro unit member
        rw [List.mem_singleton.mp member]
        simp only [digit,Bool.and_eq_true,decide_eq_true_eq]
        omega
      · intro zero
        rw [List.head?_cons] at zero
        rw [Option.some.inj zero]
      · simp [ofDigits]
      · simp [decimalAux,single]
    · obtain ⟨text,front,more⟩ := ih (n / 10) (by omega)
      refine ⟨text ++ [48 + n % 10],⟨?_,by simp,?_,?_⟩,fun behind => ?_⟩
      · intro unit member
        rcases List.mem_append.mp member with early | last
        · exact front.all unit early
        · rw [List.mem_singleton.mp last]
          simp only [digit,Bool.and_eq_true,decide_eq_true_eq]
          omega
      · intro zero
        rw [List.head?_append_of_ne_nil _ front.filled] at zero
        have alone := front.lead zero
        have value := front.value
        rw [alone] at value
        simp [ofDigits] at value
        omega
      · rw [ofDigits_append,front.value]
        simp
        omega
      · simp [decimalAux,single,more]
theorem decimal_digits (n : Nat) : Digits n (decimal n) := by
  obtain ⟨text,digits,same⟩ := decimalAux_eq (n + 1) n (by omega)
  rw [decimal,same,List.append_nil]
  exact digits
theorem readMagnitude_decimal (n : Nat) (stops : Stops rest) :
    readMagnitude (decimal n ++ rest) = some ((n : ℚ),rest) := by
  have ended : ∀ unit ∈ rest.head?, digit unit = false := fun unit head => (stops unit head).1
  have whole : readWhole (decimal n ++ rest) = some (n,rest) := by
    have all := decimal_digits n
    have read := digits_append all.all ended
    unfold readWhole
    split
    · rename_i rest' same
      cases text : decimal n with
      | nil => exact absurd text all.filled
      | cons unit more =>
        rw [text,List.cons_append,List.cons.injEq] at same
        have alone := all.lead (by rw [text,same.1]; rfl)
        rw [text] at alone
        have value := all.value
        rw [text,alone] at value
        rw [List.cons.injEq] at alone
        have zero : n = 0 := by rw [← value]; rfl
        rw [zero,← same.2,alone.2]
        rfl
    · rw [read]
      simp only [if_neg all.filled,all.value]
  have fraction : readFraction rest = some (0,rest) := by
    unfold readFraction
    split
    · rename_i more
      exact absurd rfl (stops 46 rfl).2.1
    · rfl
  have power : readExponent rest = some (1,rest) := by
    unfold readExponent
    cases rest with
    | nil => rfl
    | cons unit more =>
      obtain ⟨_,_,small,large⟩ := stops unit rfl
      simp [small,large]
  simp [readMagnitude,whole,fraction,power]
theorem readNumber_write (small : n.natAbs < 2 ^ 53) (stops : Stops rest) :
    readNumber (writeNumber n ++ rest) = some (.number n,rest) := by
  have written : writeNumber n = (if n < 0 then [45] else []) ++ decimal n.natAbs := by
    unfold writeNumber
    rw [if_pos ⟨by simp,by simp; omega⟩]
    simp
  have read := readMagnitude_decimal n.natAbs stops
  rw [written]
  by_cases negative : n < 0
  · rw [if_pos negative]
    simp only [List.cons_append,List.nil_append,readNumber,read,Option.map_some]
    have same : -((n.natAbs : ℕ) : ℚ) = (n : ℚ) := by
      rw [← Int.cast_natCast,← Int.cast_neg,show -((n.natAbs : ℕ) : ℤ) = n by omega]
    rw [same,ofRational_whole small]
  · rw [if_neg negative,List.nil_append]
    have same : ((n.natAbs : ℕ) : ℚ) = (n : ℚ) := by
      rw [← Int.cast_natCast,show ((n.natAbs : ℕ) : ℤ) = n by omega]
    have all := decimal_digits n.natAbs
    unfold readNumber
    split
    · rename_i more minus
      cases text : decimal n.natAbs with
      | nil => exact absurd text all.filled
      | cons unit others =>
        rw [text,List.cons_append,List.cons.injEq] at minus
        have := all.all unit (by rw [text]; exact List.mem_cons_self)
        rw [minus.1] at this
        cases this
    · rw [read,Option.map_some,same,ofRational_whole small]

/-! ### Strings -/

theorem hexValue_digit {n : Nat} (small : n < 16) : hexValue (hexDigit n) = some n := by
  unfold hexValue hexDigit
  split_ifs <;> first | omega | (congr 1; omega)
theorem hexUnit_escape (small : unit < 0x10000) : hexUnit (hexDigit (unit / 4096 % 16)) (hexDigit (unit / 256 % 16))
    (hexDigit (unit / 16 % 16)) (hexDigit (unit % 16)) = some unit := by
  have each : ∀ n, hexValue (hexDigit (n % 16)) = some (n % 16) := fun n => hexValue_digit (Nat.mod_lt _ (by omega))
  simp only [hexUnit,each,Option.bind_some,Option.map_some,Option.some.injEq]
  omega
theorem readString_hex (small : unit < 0x10000) (behind : Text) : readString (hexEscape unit ++ behind) =
    (readString behind).map (fun read => (unit :: read.1,read.2)) := by
  simp only [hexEscape,List.cons_append,List.nil_append]
  rw [readString,hexUnit_escape small]
theorem readString_plain (control : 32 ≤ unit) (quoted : unit ≠ 34) (back : unit ≠ 92) (behind : Text) :
    readString (unit :: behind) = (readString behind).map (fun read => (unit :: read.1,read.2)) := by
  rw [readString]
  · rw [if_neg (by omega)]
  · exact quoted
  · exact fun _ _ _ _ _ same => absurd same back
  · exact fun _ _ same => absurd same back
theorem readString_escape (paired : Bool) (unit : Nat) (behind : Text) : readString (escape paired unit ++ behind) =
    (readString behind).map (fun read => (unit :: read.1,read.2)) := by
  unfold escape
  split
  case h_8 b t n f r quoted back =>
    split_ifs with hidden
    · refine readString_hex ?_ behind
      rcases hidden with control | ⟨half | half,_⟩
      · omega
      · simp only [high,Bool.and_eq_true,decide_eq_true_eq] at half
        omega
      · simp only [low,Bool.and_eq_true,decide_eq_true_eq] at half
        omega
    · exact readString_plain (by omega) quoted back behind
  all_goals rfl
theorem readString_escapeAll (text rest : Text) : ∀ before : Option Nat,
    readString (escapeAll before text ++ 34 :: rest) = some (text,rest) := by
  induction text with
  | nil => intro before; simp [escapeAll,readString]
  | cons unit more ih =>
    intro before
    rw [escapeAll,List.append_assoc,readString_escape,ih]
    rfl
theorem readString_quote (text rest : Text) : ∃ more, quote text ++ rest = 34 :: more ∧
    readString more = some (text,rest) := by
  refine ⟨escapeAll none text ++ 34 :: rest,?_,readString_escapeAll text rest none⟩
  simp [quote]

/-! ### Values -/

/-- Values whose text reads back: their numbers are safe and whole, and their fields
    stand in their own order. -/
inductive Plain : Value → Prop
  | null : Plain .null
  | bool (value : Bool) : Plain (.bool value)
  | number (n : ℤ) (small : n.natAbs < 2 ^ 53) : Plain (.number n)
  | string (text : Text) : Plain (.string text)
  | array {items : List Value} (each : ∀ item ∈ items, Plain item) : Plain (.array items)
  | object {fields : List (Text × Value)} (each : ∀ field ∈ fields, Plain field.2) (ordered : own fields = fields) :
    Plain (.object fields)

theorem readValue_bracket (fuel : Nat) (rest : Text) : readValue (fuel + 1) (91 :: rest) =
    match skip rest with
    | 93 :: rest => some (.array [],rest)
    | rest => (readItems fuel rest).map (fun read => (.array read.1,read.2)) := rfl
theorem readValue_brace (fuel : Nat) (rest : Text) : readValue (fuel + 1) (123 :: rest) =
    match skip rest with
    | 125 :: rest => some (.object [],rest)
    | rest => (readMembers fuel rest).map (fun read => (.object (own read.1),read.2)) := rfl

/-- What a value's text begins with. -/
def Begins (text : Text) : Prop := ∃ unit more, text = unit :: more ∧ space unit = false ∧ unit ≠ 93 ∧ unit ≠ 125
theorem skip_begins {text : Text} (begins : Begins text) (rest : Text) : skip (text ++ rest) = text ++ rest := by
  obtain ⟨unit,more,rfl,solid,_⟩ := begins
  simp [skip,solid]
theorem skip_solid (solid : space unit = false) (rest : Text) : skip (unit :: rest) = unit :: rest := by
  simp [skip,solid]
theorem stops_solid (solid : digit unit = false ∧ unit ≠ 46 ∧ unit ≠ 101 ∧ unit ≠ 69) (rest : Text) :
    Stops (unit :: rest) := by
  intro other head
  cases head
  exact solid
theorem stops_nil : Stops [] := fun _ head => by cases head
theorem writeNumber_begins (small : n.natAbs < 2 ^ 53) :
    ∃ unit more, writeNumber n = unit :: more ∧ (unit = 45 ∨ digit unit = true) := by
  have written : writeNumber n = (if n < 0 then [45] else []) ++ decimal n.natAbs := by
    unfold writeNumber
    rw [if_pos ⟨by simp,by simp; omega⟩]
    simp
  have all := decimal_digits n.natAbs
  rw [written]
  by_cases negative : n < 0
  · exact ⟨45,_,by rw [if_pos negative]; rfl,.inl rfl⟩
  · rw [if_neg negative]
    cases text : decimal n.natAbs with
    | nil => exact absurd text all.filled
    | cons unit more => exact ⟨unit,more,rfl,.inr (all.all unit (by rw [text]; exact List.mem_cons_self))⟩
theorem write_begins {value : Value} (plain : Plain value) : Begins (write value) := by
  cases plain with
  | null => exact ⟨110,_,rfl,rfl,by decide,by decide⟩
  | bool value =>
    cases value with
    | false => exact ⟨102,_,rfl,rfl,by decide,by decide⟩
    | true => exact ⟨116,_,rfl,rfl,by decide,by decide⟩
  | number n small =>
    obtain ⟨unit,more,same,first⟩ := writeNumber_begins small
    refine ⟨unit,more,same,?_⟩
    simp only [digit,Bool.and_eq_true,decide_eq_true_eq] at first
    simp only [space,Bool.or_eq_false_iff,decide_eq_false_iff_not]
    omega
  | string text => exact ⟨34,_,rfl,rfl,by decide,by decide⟩
  | array => exact ⟨91,_,rfl,rfl,by decide,by decide⟩
  | object => exact ⟨123,_,rfl,rfl,by decide,by decide⟩
theorem begins_append {text : Text} (begins : Begins text) (rest : Text) : Begins (text ++ rest) := by
  obtain ⟨unit,more,rfl,facts⟩ := begins
  exact ⟨unit,more ++ rest,rfl,facts⟩
theorem commas_begins {texts : List Text} (filled : texts ≠ []) (each : ∀ text ∈ texts, Begins text) :
    Begins (commas texts) := by
  match texts with
  | [] => exact absurd rfl filled
  | [text] => exact each text List.mem_cons_self
  | text :: other :: rest => exact begins_append (each text List.mem_cons_self) _

/-- The value is read back with enough fuel, whatever ends it. -/
def Reads (value : Value) : Prop := ∀ fuel rest, Stops rest → 2 * (write value).length ≤ fuel →
  readValue fuel (write value ++ rest) = some (value,rest)

theorem readItems_write (items : List Value) (filled : items ≠ []) (plain : ∀ item ∈ items, Plain item)
    (each : ∀ item ∈ items, Reads item) : ∀ fuel rest, 2 * (commas (writeItems items)).length + 1 ≤ fuel →
      readItems fuel (commas (writeItems items) ++ 93 :: rest) = some (items,rest) := by
  induction items with
  | nil => exact absurd rfl filled
  | cons item more ih =>
    intro fuel rest enough
    cases fuel with
    | zero => omega
    | succ fuel =>
      cases more with
      | nil =>
        simp only [writeItems,commas] at enough ⊢
        have read := each item List.mem_cons_self fuel (93 :: rest) (stops_solid (by decide) rest) (by omega)
        simp only [readItems,read,skip_solid (by decide : space 93 = false)]
      | cons next more =>
        simp only [writeItems,commas,List.length_append,List.length_cons] at enough ⊢
        have read := each item List.mem_cons_self fuel (44 :: (commas (writeItems (next :: more)) ++ 93 :: rest))
          (stops_solid (by decide) _) (by omega)
        have later := ih (by simp) (fun item member => plain item (List.mem_cons_of_mem _ member))
          (fun item member => each item (List.mem_cons_of_mem _ member)) fuel rest (by simp only [writeItems]; omega)
        simp only [writeItems] at read later
        rw [List.append_assoc,List.cons_append]
        simp only [readItems,read,skip_solid (by decide : space 44 = false),later,Option.map_some]
theorem readMembers_write (fields : List (Text × Value)) (filled : fields ≠ [])
    (plain : ∀ field ∈ fields, Plain field.2)
    (each : ∀ field ∈ fields, Reads field.2) : ∀ fuel rest, 2 * (commas (writeFields fields)).length + 1 ≤ fuel →
      readMembers fuel (commas (writeFields fields) ++ 125 :: rest) = some (fields,rest) := by
  induction fields with
  | nil => exact absurd rfl filled
  | cons field more ih =>
    obtain ⟨key,item⟩ := field
    intro fuel rest enough
    cases fuel with
    | zero => omega
    | succ fuel =>
      -- A key, its colon and its value, with something behind that ends the value.
      have member : ∀ {behind : Text}, Stops behind → 2 * (write item).length ≤ fuel → ∃ text,
          quote key ++ 58 :: write item ++ behind = 34 :: text ∧
          readString text = some (key,58 :: write item ++ behind) ∧
          readValue fuel (write item ++ behind) = some (item,behind) := fun {behind} stops enough => by
        obtain ⟨text,same,read⟩ := readString_quote key (58 :: write item ++ behind)
        exact ⟨text,by rw [← same,List.append_assoc],read,each (key,item) List.mem_cons_self fuel behind stops enough⟩
      cases more with
      | nil =>
        simp only [writeFields,commas,List.length_append,List.length_cons] at enough ⊢
        obtain ⟨text,same,keyRead,valueRead⟩ := member (stops_solid (by decide) rest : Stops (125 :: rest)) (by omega)
        rw [same]
        simp only [readMembers,skip_solid (by decide : space 34 = false),keyRead,List.cons_append,
          skip_solid (by decide : space 58 = false),valueRead,skip_solid (by decide : space 125 = false)]
      | cons next more =>
        simp only [writeFields,commas,List.length_append,List.length_cons] at enough ⊢
        obtain ⟨text,same,keyRead,valueRead⟩ := member (stops_solid (by decide) _ :
          Stops (44 :: (commas (writeFields (next :: more)) ++ 125 :: rest))) (by omega)
        have later := ih (by simp) (fun item member => plain item (List.mem_cons_of_mem _ member))
          (fun item member => each item (List.mem_cons_of_mem _ member)) fuel rest (by
            simp only [writeFields]
            omega)
        simp only [writeFields] at same keyRead valueRead later
        rw [List.append_assoc _ (44 :: _),List.cons_append,same]
        simp only [readMembers,skip_solid (by decide : space 34 = false),keyRead,List.cons_append,
          skip_solid (by decide : space 58 = false),valueRead,skip_solid (by decide : space 44 = false),later,
            Option.map_some]
theorem writeItems_begins {items : List Value} (each : ∀ item ∈ items, Plain item) :
    ∀ text ∈ writeItems items, Begins text := by
  induction items with
  | nil => intro text member; cases member
  | cons item rest ih =>
    intro text member
    rcases List.mem_cons.mp member with rfl | later
    · exact write_begins (each item List.mem_cons_self)
    · exact ih (fun item member => each item (List.mem_cons_of_mem _ member)) text later
theorem writeFields_begins (fields : List (Text × Value)) : ∀ text ∈ writeFields fields, Begins text := by
  induction fields with
  | nil => intro text member; cases member
  | cons field rest ih =>
    intro text member
    obtain ⟨key,item⟩ := field
    rcases List.mem_cons.mp member with rfl | later
    · exact begins_append ⟨34,_,rfl,rfl,by decide,by decide⟩ _
    · exact ih text later
theorem plain_reads {value : Value} (plain : Plain value) : Reads value := by
  induction plain with
  | null => exact fun
    | 0,_,_,few => absurd few (by decide)
    | fuel+1,rest,_,_ => rfl
  | bool value =>
    cases value with
    | false => exact fun
      | 0,_,_,few => absurd few (by decide)
      | fuel+1,rest,_,_ => rfl
    | true => exact fun
      | 0,_,_,few => absurd few (by decide)
      | fuel+1,rest,_,_ => rfl
  | number n small =>
    intro fuel rest stops enough
    obtain ⟨unit,more,same,first⟩ := writeNumber_begins small
    have begins := write_begins (.number n small)
    cases fuel with
    | zero =>
      rw [write,same] at enough
      simp at enough
    | succ fuel =>
      have read := readNumber_write small stops
      rw [readValue,skip_begins begins]
      rw [write] at begins ⊢
      rw [same] at read ⊢
      simp only [digit,Bool.and_eq_true,decide_eq_true_eq] at first
      split
      all_goals
        rename_i head
        first
        | (rw [List.cons_append,List.cons.injEq] at head; omega)
        | exact read
  | string text =>
    intro fuel rest _ enough
    cases fuel with
    | zero => simp [write,quote] at enough
    | succ fuel =>
      obtain ⟨more,same,read⟩ := readString_quote text rest
      rw [write,same,readValue,skip_solid (by decide)]
      simp only [read,Option.map_some]
  | @array items each ih =>
    intro fuel rest _ enough
    cases fuel with
    | zero => simp [write] at enough
    | succ fuel =>
      have opened : write (.array items) ++ rest = 91 :: (commas (writeItems items) ++ 93 :: rest) := by simp [write]
      rw [opened,readValue_bracket]
      by_cases empty : items = []
      · subst empty
        rfl
      · have filled : writeItems items ≠ [] := by
          cases items with
          | nil => exact absurd rfl empty
          | cons => simp [writeItems]
        have begins := commas_begins filled (writeItems_begins each)
        have read := readItems_write items empty each ih fuel rest (by
          simp only [write,List.length_cons,List.length_append] at enough
          omega)
        rw [skip_begins begins]
        obtain ⟨unit,more,same,_,bracket,_⟩ := begins
        rw [same] at read ⊢
        rw [List.cons_append] at read ⊢
        split
        · rename_i closed
          rw [List.cons.injEq] at closed
          exact absurd closed.1 bracket
        · rw [read]
          rfl
  | @object fields each ordered ih =>
    intro fuel rest _ enough
    cases fuel with
    | zero => simp [write] at enough
    | succ fuel =>
      have opened : write (.object fields) ++ rest = 123 :: (commas (writeFields fields) ++ 125 :: rest) := by
        simp [write]
      rw [opened,readValue_brace]
      by_cases empty : fields = []
      · subst empty
        rfl
      · have filled : writeFields fields ≠ [] := by
          cases fields with
          | nil => exact absurd rfl empty
          | cons => simp [writeFields]
        have begins := commas_begins filled (writeFields_begins fields)
        have read := readMembers_write fields empty each ih fuel rest (by
          simp only [write,List.length_cons,List.length_append] at enough
          omega)
        rw [skip_begins begins]
        obtain ⟨unit,more,same,_,_,brace⟩ := begins
        rw [same] at read ⊢
        rw [List.cons_append] at read ⊢
        split
        · rename_i closed
          rw [List.cons.injEq] at closed
          exact absurd closed.1 brace
        · rw [read,Option.map_some,ordered]
theorem parse_write {value : Value} (plain : Plain value) : parse (write value) = some value := by
  have read := plain_reads plain (2 * (write value).length + 2) [] stops_nil (by omega)
  rw [List.append_nil] at read
  rw [parse,read]
  rfl

end RelaySwarm.JsonText
