import RelaySwarm.JsonRoundTrip

/-!
How long written texts are. A text of ASCII units has as many bytes as units; the
length of an object or an array is known from those of its parts.
-/
namespace RelaySwarm.JsonText

/-- Every unit is one of ASCII. -/
def Ascii (text : Text) : Prop := ∀ unit ∈ text, unit < 128
theorem Ascii.nil : Ascii [] := by
  intro unit member
  cases member
theorem Ascii.cons {unit : Nat} {rest : Text} (first : unit < 128) (later : Ascii rest) : Ascii (unit :: rest) := by
  intro other member
  rcases List.mem_cons.mp member with rfl | inside
  · exact first
  · exact later other inside
theorem Ascii.append {a b : Text} (first : Ascii a) (second : Ascii b) : Ascii (a ++ b) := by
  intro unit member
  rcases List.mem_append.mp member with inside | inside
  · exact first unit inside
  · exact second unit inside

theorem pointBytes_length {unit : Nat} (small : unit < 128) : (pointBytes unit).length = 1 := by
  simp [pointBytes,small]
theorem utf8Bytes_length (text : Text) (ascii : Ascii text) : (utf8Bytes text).length = text.length := by
  fun_induction utf8Bytes text with
  | case1 => rfl
  | case2 unit =>
    have small : unit < 128 := ascii unit (by simp)
    have alone : ¬ (high unit = true ∨ low unit = true) := by simp [high,low]; omega
    rw [if_neg alone,pointBytes_length small]
    rfl
  | case3 first second rest pair ih =>
    have small : first < 128 := ascii first (by simp)
    simp only [high,Bool.and_eq_true,decide_eq_true_eq] at pair
    omega
  | case4 first second rest apart ih =>
    have small : first < 128 := ascii first (by simp)
    have alone : ¬ (high first = true ∨ low first = true) := by simp [high,low]; omega
    rw [if_neg alone,List.length_append,pointBytes_length small,
      ih (fun unit member => ascii unit (List.mem_cons_of_mem _ member))]
    simp
    omega

/-! ### Strings -/

/-- Units that stand in a string as they are. -/
def Printed (text : Text) : Prop := ∀ unit ∈ text, 32 ≤ unit ∧ unit < 128 ∧ unit ≠ 34 ∧ unit ≠ 92
instance (text : Text) : Decidable (Printed text) := inferInstanceAs (Decidable (∀ unit ∈ text, _))
theorem escape_printed {unit : Nat} (printed : 32 ≤ unit ∧ unit < 128 ∧ unit ≠ 34 ∧ unit ≠ 92) (paired : Bool) :
    escape paired unit = [unit] := by
  obtain ⟨control,ascii,quoted,back⟩ := printed
  unfold escape
  split
  case h_8 =>
    rw [if_neg]
    simp [high,low]
    omega
  all_goals omega
theorem escapeAll_printed (text : Text) (printed : Printed text) : ∀ before, escapeAll before text = text := by
  induction text with
  | nil => intro before; rfl
  | cons unit rest ih =>
    intro before
    rw [escapeAll,escape_printed (printed unit (by simp)),
      ih fun other member => printed other (List.mem_cons_of_mem _ member)]
    rfl
theorem quote_printed {text : Text} (printed : Printed text) : quote text = 34 :: text ++ [34] := by
  rw [quote,escapeAll_printed text printed]
theorem quote_length {text : Text} (printed : Printed text) : (quote text).length = text.length + 2 := by
  rw [quote_printed printed]
  simp
theorem quote_ascii {text : Text} (printed : Printed text) : Ascii (quote text) := by
  rw [quote_printed printed]
  exact (Ascii.cons (by omega) fun unit member => (printed unit member).2.1).append (.cons (by omega) .nil)

/-! ### Numbers -/

theorem decimalAux_length (fuel : Nat) : ∀ (n digits : Nat) (behind : Text), 0 < digits → n < 10 ^ digits → n < fuel →
    (decimalAux fuel n behind).length ≤ digits + behind.length := by
  induction fuel with
  | zero => intro n digits behind _ _ few; omega
  | succ fuel ih =>
    intro n digits behind some small few
    unfold decimalAux
    split
    · simp
      omega
    · rename_i large
      obtain ⟨digits,rfl⟩ : ∃ fewer, digits = fewer + 1 := ⟨digits - 1,by omega⟩
      have more : 0 < digits := by
        rcases Nat.eq_zero_or_pos digits with rfl | more
        · omega
        · exact more
      have less : n / 10 < 10 ^ digits := by
        rw [Nat.div_lt_iff_lt_mul (by omega),← pow_succ]
        exact small
      have inside := ih (n / 10) digits ((48 + n % 10) :: behind) more less (by omega)
      simp only [List.length_cons] at inside
      omega
theorem decimal_length {n digits : Nat} (some : 0 < digits) (small : n < 10 ^ digits) :
    (decimal n).length ≤ digits := by
  have inside := decimalAux_length (n + 1) n digits [] some small (by omega)
  simpa [decimal] using inside
theorem writeNumber_whole {n : Int} (small : n.natAbs ≤ 2 ^ 53) :
    writeNumber n = (if n < 0 then [45] else []) ++ decimal n.natAbs := by
  unfold writeNumber
  dsimp only
  have whole : (n : ℚ).den = 1 ∧ (n : ℚ).num.natAbs ≤ 2 ^ 53 := ⟨Rat.den_intCast n,by rw [Rat.num_intCast]; exact small⟩
  rw [if_pos whole,Rat.num_intCast]
  congr 1
  simp
theorem writeNumber_ascii {n : Int} (small : n.natAbs ≤ 2 ^ 53) : Ascii (writeNumber n) := by
  rw [writeNumber_whole small]
  refine Ascii.append ?_ fun unit member => ?_
  · split
    · exact .cons (by omega) .nil
    · exact .nil
  · have digit := (decimal_digits n.natAbs).all unit member
    simp only [JsonText.digit,Bool.and_eq_true,decide_eq_true_eq] at digit
    omega

/-! ### Arrays and objects -/

theorem commas_length (texts : List Text) :
    (commas texts).length = (texts.map List.length).sum + (texts.length - 1) := by
  fun_induction commas texts with
  | case1 => rfl
  | case2 text => simp
  | case3 text rest filled ih =>
    have some : 0 < rest.length := List.length_pos_of_ne_nil filled
    simp only [List.length_append,List.length_cons,List.map_cons,List.sum_cons,ih]
    omega
theorem commas_ascii (texts : List Text) (ascii : ∀ text ∈ texts, Ascii text) : Ascii (commas texts) := by
  fun_induction commas texts with
  | case1 => exact .nil
  | case2 text => exact ascii text (by simp)
  | case3 text rest filled ih =>
    exact (ascii text (by simp)).append
      (.cons (by omega) (ih fun other member => ascii other (List.mem_cons_of_mem _ member)))
theorem writeItems_eq (items : List Value) : writeItems items = items.map write := by
  induction items with
  | nil => simp [writeItems]
  | cons item rest ih => simp [writeItems,ih]
theorem writeFields_eq (fields : List (Text × Value)) :
    writeFields fields = fields.map (fun field => quote field.1 ++ 58 :: write field.2) := by
  induction fields with
  | nil => simp [writeFields]
  | cons field rest ih => simp [writeFields,ih]

/-- What parts with commas between them take: one unit each more than the parts, but
    for the last. -/
theorem commas_sum (texts : List Text) : (commas texts).length = (texts.map (fun text => text.length + 1)).sum - 1 := by
  rw [commas_length]
  have sum : (texts.map (fun text => text.length + 1)).sum = (texts.map List.length).sum + texts.length := by
    induction texts with
    | nil => rfl
    | cons text rest ih =>
      simp only [List.map_cons,List.sum_cons,List.length_cons,ih]
      omega
  rw [sum]
  cases texts with
  | nil => rfl
  | cons text rest =>
    simp only [List.length_cons]
    omega
theorem array_length (items : List Value) :
    (write (.array items)).length = 2 + ((items.map (fun item => (write item).length + 1)).sum - 1) := by
  rw [write,writeItems_eq,List.length_append,List.length_cons,commas_sum,List.map_map]
  simp only [Function.comp_def,List.length_singleton]
  omega
theorem array_ascii {items : List Value} (ascii : ∀ item ∈ items, Ascii (write item)) :
    Ascii (write (.array items)) := by
  rw [write,writeItems_eq]
  refine (Ascii.cons (by omega) (commas_ascii _ fun text member => ?_)).append (.cons (by omega) .nil)
  obtain ⟨item,inside,rfl⟩ := List.mem_map.mp member
  exact ascii item inside
theorem object_length (fields : List (Text × Value)) : (write (.object fields)).length =
    2 + ((fields.map (fun field => (quote field.1).length + (write field.2).length + 2)).sum - 1) := by
  have each : (fields.map (fun field => (quote field.1 ++ 58 :: write field.2).length + 1)).sum =
      (fields.map (fun field => (quote field.1).length + (write field.2).length + 2)).sum := by
    congr 2
    funext field
    simp only [List.length_append,List.length_cons]
    omega
  rw [write,writeFields_eq,List.length_append,List.length_cons,commas_sum,List.map_map]
  simp only [Function.comp_def,List.length_singleton,each]
  omega
theorem object_ascii {fields : List (Text × Value)}
    (ascii : ∀ field ∈ fields, Printed field.1 ∧ Ascii (write field.2)) :
    Ascii (write (.object fields)) := by
  rw [write,writeFields_eq]
  refine (Ascii.cons (by omega) (commas_ascii _ fun text member => ?_)).append (.cons (by omega) .nil)
  obtain ⟨field,inside,rfl⟩ := List.mem_map.mp member
  exact (quote_ascii (ascii field inside).1).append (.cons (by omega) (ascii field inside).2)

/-! ### Short values -/

/-- A number is written in ASCII and takes at most so many units. -/
structure Narrow (n : Int) (digits : Nat) : Prop where
  ascii : Ascii (writeNumber n)
  length : (writeNumber n).length ≤ digits
/-- A value is written in ASCII and takes at most so many units. -/
structure Short (value : Value) (length : Nat) : Prop where
  ascii : Ascii (write value)
  length : (write value).length ≤ length
theorem Short.within {value : Value} {length more : Nat} (short : Short value length) (fewer : length.ble more = true) :
    Short value more :=
  ⟨short.ascii,le_trans short.length (Nat.le_of_ble_eq_true fewer)⟩
theorem Short.number {n : Int} {digits : Nat} (narrow : Narrow n digits) : Short (.number n) digits := by
  refine ⟨?_,?_⟩
  · rw [write]; exact narrow.ascii
  · rw [write]; exact narrow.length
theorem Short.printed {text : Text} (printed : Printed text) : Short (.string text) (text.length + 2) := by
  refine ⟨?_,?_⟩
  · rw [write]; exact quote_ascii printed
  · rw [write,quote_length printed]
theorem Short.bool (value : Bool) : Short (.bool value) 5 := by
  cases value <;> exact ⟨by unfold write Ascii; decide,by unfold write; decide⟩
/-- A field is written in ASCII, and takes at most so many units with its comma. -/
structure Column (field : Text × Value) (units : Nat) : Prop where
  ascii : Printed field.1 ∧ Ascii (write field.2)
  length : (quote field.1).length + (write field.2).length + 2 ≤ units
theorem Short.column {key : Text} {value : Value} {length units : Nat} (short : Short value length)
    (fits : Printed key ∧ key.length + length + 4 ≤ units) : Column (key,value) units := by
  refine ⟨⟨fits.1,short.ascii⟩,?_⟩
  have width := short.length
  dsimp only
  rw [quote_length fits.1]
  omega
theorem Short.object (columns : List ((Text × Value) × Nat)) (short : ∀ column ∈ columns, Column column.1 column.2) :
    Short (.object (columns.map (·.1))) (2 + ((columns.map (·.2)).sum - 1)) := by
  refine ⟨object_ascii fun field member => ?_,?_⟩
  · obtain ⟨column,inside,rfl⟩ := List.mem_map.mp member
    exact (short _ inside).ascii
  · rw [object_length,List.map_map]
    have total : (columns.map (fun column => (quote column.1.1).length + (write column.1.2).length + 2)).sum ≤
        (columns.map (·.2)).sum := List.sum_le_sum fun column member => (short column member).length
    simp only [Function.comp_def]
    omega
theorem Short.rows {α : Type} {rows : List α} {value : α → Value} {width capacity : Nat}
    (short : ∀ row ∈ rows, Short (value row) width) (few : rows.length ≤ capacity) (some : 1 ≤ capacity) :
    Short (.array (rows.map value)) ((width + 1) * capacity + 1) := by
  refine ⟨array_ascii fun item member => ?_,?_⟩
  · obtain ⟨row,inside,rfl⟩ := List.mem_map.mp member
    exact (short row inside).ascii
  · rw [array_length,List.map_map]
    have total : (rows.map ((fun item => (write item).length + 1) ∘ value)).sum ≤ rows.length * (width + 1) := by
      have each := List.sum_le_card_nsmul (rows.map ((fun item => (write item).length + 1) ∘ value)) (width + 1) (by
        intro n member
        obtain ⟨row,inside,rfl⟩ := List.mem_map.mp member
        exact Nat.succ_le_succ (short row inside).length)
      rwa [List.length_map,nsmul_eq_mul] at each
    have most : rows.length * (width + 1) ≤ (width + 1) * capacity := by
      rw [Nat.mul_comm]
      exact Nat.mul_le_mul_left _ few
    have room : 1 ≤ (width + 1) * capacity := Nat.mul_pos (by omega) some
    omega

end RelaySwarm.JsonText
