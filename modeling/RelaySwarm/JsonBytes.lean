import RelaySwarm.JsonLength

/-!
Written texts as bytes. A text in which no half of a pair stands alone is read back from
its UTF-8 bytes (`utf8_paired`), and so is every text that `write` gives (`utf8_write`).
-/
namespace RelaySwarm.JsonText

/-! ### Code points -/

variable {byte unit : Nat}
theorem utf8From_byte (sequence : Sequence) (small : byte < 256) (rest : List UInt8) :
    utf8From sequence (UInt8.ofNat byte :: rest) =
      (utf8Byte sequence byte).1 ++ utf8From (utf8Byte sequence byte).2 rest := by
  have same : (UInt8.ofNat byte).toNat = byte := by
    rw [UInt8.toNat_ofNat']
    omega
  rw [utf8From,same]
theorem utf8Byte_idle (byte : Nat) : utf8Byte .idle byte = leadByte byte := rfl
theorem utf8Byte_more {sequence : Sequence} (needed : 1 < sequence.needed)
    (inside : sequence.lower ≤ byte ∧ byte ≤ sequence.upper) :
    utf8Byte sequence byte = ([],⟨sequence.needed - 1,sequence.bits * 64 + byte % 64,0x80,0xBF⟩) := by
  have some : sequence.needed ≠ 0 := by omega
  have two : sequence.needed ≠ 1 := by omega
  have within : ¬ (byte < sequence.lower ∨ sequence.upper < byte) := by omega
  unfold utf8Byte
  rw [if_neg some,if_neg within]
  dsimp only
  rw [if_neg two]
theorem utf8Byte_last {sequence : Sequence} (needed : sequence.needed = 1)
    (inside : sequence.lower ≤ byte ∧ byte ≤ sequence.upper) :
    utf8Byte sequence byte = (codePoint (sequence.bits * 64 + byte % 64),.idle) := by
  have some : sequence.needed ≠ 0 := by omega
  have within : ¬ (byte < sequence.lower ∨ sequence.upper < byte) := by omega
  unfold utf8Byte
  rw [if_neg some,if_neg within]
  dsimp only
  rw [if_pos needed]
theorem utf8From_point {point : Nat} (bound : point < 0x110000) (whole : point < 0xD800 ∨ 0xE000 ≤ point)
    (rest : List UInt8) :
    utf8From .idle (pointBytes point ++ rest) = codePoint point ++ utf8From .idle rest := by
  unfold pointBytes
  split_ifs with one two three
  · have lead : leadByte point = ([point],.idle) := if_pos one
    rw [List.singleton_append,utf8From_byte _ (by omega),utf8Byte_idle,lead]
    simp [codePoint,show point < 0x10000 by omega]
  · have lead : leadByte (0xC0 + point / 64) = ([],⟨1,point / 64,0x80,0xBF⟩) := by
      unfold leadByte
      rw [if_neg (by omega),if_pos (by omega),show (0xC0 + point / 64) % 32 = point / 64 by omega]
    rw [List.cons_append,List.singleton_append,utf8From_byte _ (by omega),utf8Byte_idle,lead,utf8From_byte _ (by omega),
      utf8Byte_last rfl (by dsimp only; omega)]
    dsimp only
    rw [show point / 64 * 64 + (0x80 + point % 64) % 64 = point by omega]
    rfl
  · have lead : leadByte (0xE0 + point / 4096) = ([],⟨2,point / 4096,if 0xE0 + point / 4096 = 0xE0 then 0xA0 else 0x80,
        if 0xE0 + point / 4096 = 0xED then 0x9F else 0xBF⟩) := by
      unfold leadByte
      rw [if_neg (by omega),if_neg (by omega),if_pos (by omega),show (0xE0 + point / 4096) % 16 = point / 4096 by omega]
    have inside : (if 0xE0 + point / 4096 = 0xE0 then 0xA0 else 0x80) ≤ 0x80 + point / 64 % 64 ∧
        0x80 + point / 64 % 64 ≤ (if 0xE0 + point / 4096 = 0xED then 0x9F else 0xBF) := by
      split_ifs <;> omega
    rw [List.cons_append,List.cons_append,List.singleton_append,utf8From_byte _ (by omega),utf8Byte_idle,lead,
      utf8From_byte _ (by omega),utf8Byte_more (by dsimp only; omega) inside,utf8From_byte _ (by omega),
      utf8Byte_last rfl (by dsimp only; omega)]
    dsimp only
    rw [show (point / 4096 * 64 + (0x80 + point / 64 % 64) % 64) * 64 + (0x80 + point % 64) % 64 = point by omega]
    rfl
  · have lead : leadByte (0xF0 + point / 262144) =
        ([],⟨3,point / 262144,if 0xF0 + point / 262144 = 0xF0 then 0x90 else 0x80,
        if 0xF0 + point / 262144 = 0xF4 then 0x8F else 0xBF⟩) := by
      unfold leadByte
      rw [if_neg (by omega),if_neg (by omega),if_neg (by omega),if_pos (by omega),
        show (0xF0 + point / 262144) % 8 = point / 262144 by omega]
    have inside : (if 0xF0 + point / 262144 = 0xF0 then 0x90 else 0x80) ≤ 0x80 + point / 4096 % 64 ∧
        0x80 + point / 4096 % 64 ≤ (if 0xF0 + point / 262144 = 0xF4 then 0x8F else 0xBF) := by
      split_ifs <;> omega
    rw [List.cons_append,List.cons_append,List.cons_append,List.singleton_append,utf8From_byte _ (by omega),
      utf8Byte_idle,lead,
      utf8From_byte _ (by omega),utf8Byte_more (by dsimp only; omega) inside,utf8From_byte _ (by omega),
      utf8Byte_more (by dsimp only; omega) (by dsimp only; omega),utf8From_byte _ (by omega),
      utf8Byte_last rfl (by dsimp only; omega)]
    dsimp only
    rw [show ((point / 262144 * 64 + (0x80 + point / 4096 % 64) % 64) * 64 + (0x80 + point / 64 % 64) % 64) * 64 +
      (0x80 + point % 64) % 64 = point by omega]
    rfl

/-! ### Paired texts -/

/-- Texts of 16-bit units in which the halves of pairs stand together. -/
inductive Paired : Text → Prop
  | nil : Paired []
  | unit {unit : Nat} {rest : Text} (small : unit < 0x10000) (whole : high unit = false ∧ low unit = false)
    (later : Paired rest) : Paired (unit :: rest)
  | pair {first second : Nat} {rest : Text} (upper : high first = true) (lower : low second = true)
    (later : Paired rest) :
    Paired (first :: second :: rest)
theorem Paired.append {a b : Text} (first : Paired a) (second : Paired b) : Paired (a ++ b) := by
  induction first with
  | nil => exact second
  | unit small whole _ ih => exact .unit small whole ih
  | pair upper lower _ ih => exact .pair upper lower ih
theorem ascii_whole (small : unit < 128) : high unit = false ∧ low unit = false := by
  simp only [high,low,Bool.and_eq_false_iff,decide_eq_false_iff_not]
  omega
instance (text : Text) : Decidable (Ascii text) := inferInstanceAs (Decidable (∀ unit ∈ text, unit < 128))
theorem Ascii.paired {text : Text} (ascii : Ascii text) : Paired text := by
  induction text with
  | nil => exact .nil
  | cons unit rest ih =>
    have small := ascii unit (by simp)
    exact .unit (by omega) (ascii_whole small) (ih fun other member => ascii other (List.mem_cons_of_mem _ member))
theorem utf8Bytes_unit (whole : high unit = false ∧ low unit = false) (rest : Text) :
    utf8Bytes (unit :: rest) = pointBytes unit ++ utf8Bytes rest := by
  cases rest with
  | nil => simp [utf8Bytes,whole]
  | cons next rest => simp [utf8Bytes,whole]
theorem utf8_paired {text : Text} (paired : Paired text) : utf8 (utf8Bytes text) = text := by
  unfold utf8
  induction paired with
  | nil => rfl
  | @unit unit rest small whole _ ih =>
    have aside : unit < 0xD800 ∨ 0xE000 ≤ unit := by
      simp only [high,low,Bool.and_eq_false_iff,decide_eq_false_iff_not] at whole
      omega
    rw [utf8Bytes_unit whole,utf8From_point (by omega) aside,ih]
    simp [codePoint,small]
  | @pair first second rest upper lower _ ih =>
    simp only [high,low,Bool.and_eq_true,decide_eq_true_eq] at upper lower
    have both : high first = true ∧ low second = true := by
      simp only [high,low,Bool.and_eq_true,decide_eq_true_eq]
      omega
    rw [utf8Bytes,if_pos both,utf8From_point (by omega) (by omega),ih]
    have above : ¬ 0x10000 + (first - 0xD800) * 0x400 + (second - 0xDC00) < 0x10000 := by omega
    unfold codePoint
    rw [if_neg above,show 0xD800 + (0x10000 + (first - 0xD800) * 0x400 + (second - 0xDC00) - 0x10000) / 0x400 =
      first by omega,
      show 0xDC00 + (0x10000 + (first - 0xD800) * 0x400 + (second - 0xDC00) - 0x10000) % 0x400 = second by omega]
    rfl

/-! ### What is written -/

theorem hexDigit_ascii {n : Nat} (small : n < 16) : hexDigit n < 128 := by
  unfold hexDigit
  split_ifs <;> omega
theorem hexEscape_ascii (unit : Nat) : Ascii (hexEscape unit) := by
  intro other member
  simp only [hexEscape,List.mem_cons,List.not_mem_nil,or_false] at member
  rcases member with rfl | rfl | rfl | rfl | rfl | rfl
  · omega
  · omega
  all_goals exact hexDigit_ascii (Nat.mod_lt _ (by omega))
theorem escape_alone (small : unit < 0x10000) : Paired (escape false unit) := by
  unfold escape
  split
  case h_8 =>
    split_ifs with escaped
    · exact (hexEscape_ascii unit).paired
    · simp only [and_true,not_or] at escaped
      exact .unit small ⟨by simpa using escaped.2.1,by simpa using escaped.2.2⟩ .nil
  all_goals exact Ascii.paired (by decide)
theorem escape_half (half : high unit = true ∨ low unit = true) : escape true unit = [unit] := by
  have large : 0xD800 ≤ unit := by
    simp only [high,low,Bool.and_eq_true,decide_eq_true_eq] at half
    omega
  unfold escape
  split
  case h_8 => rw [if_neg (by simp; omega)]
  all_goals omega
theorem escapeAll_paired : ∀ (text : Text) (before : Option Nat), (∀ unit ∈ text, unit < 0x10000) →
    (before.any high = true → text.head?.any low = false) → Paired (escapeAll before text) := by
  intro text
  induction text using utf8Bytes.induct with
  | case1 => intro before _ _; exact .nil
  | case2 unit =>
    intro before small apart
    have alone : (low unit && before.any high) = false := by
      cases held : before.any high with
      | false => simp
      | true => simpa using apart held
    rw [escapeAll,escapeAll]
    simp only [List.head?_nil,Option.any_none,Bool.and_false,Bool.false_or,alone,List.append_nil]
    exact escape_alone (small unit (by simp))
  | case3 first second rest both ih =>
    intro before small _
    obtain ⟨upper,lower⟩ := both
    have fresh : high second = false := by
      simp only [low,Bool.and_eq_true,decide_eq_true_eq] at lower
      simp only [high,Bool.and_eq_false_iff,decide_eq_false_iff_not]
      omega
    rw [escapeAll,escapeAll]
    simp only [List.head?_cons,Option.any_some,upper,lower,Bool.and_self,Bool.true_or,Bool.or_true,
      escape_half (.inl upper),escape_half (.inr lower),List.singleton_append]
    refine .pair upper lower (ih (some second) (fun unit member => small unit (by simp [member])) ?_)
    simp [fresh]
  | case4 first second rest apart ih =>
    intro before small aside
    have alone : (high first && low second || low first && before.any high) = false := by
      cases held : before.any high with
      | false => simpa using apart
      | true =>
        have lower : low first = false := by simpa using aside held
        simp only [lower,Bool.false_and,Bool.or_false]
        simpa using apart
    rw [escapeAll]
    simp only [List.head?_cons,Option.any_some,alone]
    refine (escape_alone (small first (by simp))).append
      (ih (some first) (fun unit member => small unit (by simp [member])) ?_)
    intro upper
    simp only [Option.any_some] at upper
    simpa [upper] using apart
theorem quote_paired {text : Text} (small : ∀ unit ∈ text, unit < 0x10000) : Paired (quote text) := by
  have body := escapeAll_paired text none small (by simp)
  have ends : Paired [34] := Ascii.paired (by decide)
  exact (Paired.append ends body).append ends
theorem commas_paired (texts : List Text) (paired : ∀ text ∈ texts, Paired text) : Paired (commas texts) := by
  fun_induction commas texts with
  | case1 => exact .nil
  | case2 text => exact paired text (by simp)
  | case3 text rest some ih =>
    have between : Paired [44] := Ascii.paired (by decide)
    exact (paired text (by simp)).append
      (between.append (ih fun other member => paired other (List.mem_cons_of_mem _ member)))

/-- Values of 16-bit texts and whole numbers. -/
inductive Textual : Value → Prop
  | null : Textual .null
  | bool (value : Bool) : Textual (.bool value)
  | number (n : ℤ) (small : n.natAbs ≤ 2 ^ 53) : Textual (.number n)
  | string {text : Text} (small : ∀ unit ∈ text, unit < 0x10000) : Textual (.string text)
  | array {items : List Value} (each : ∀ item ∈ items, Textual item) : Textual (.array items)
  | object {fields : List (Text × Value)} (keys : ∀ field ∈ fields, ∀ unit ∈ field.1, unit < 0x10000)
    (each : ∀ field ∈ fields, Textual field.2) : Textual (.object fields)
theorem write_paired {value : Value} (textual : Textual value) : Paired (write value) := by
  induction textual with
  | null => exact Ascii.paired (by rw [write]; decide)
  | bool value =>
    cases value with
    | false => exact Ascii.paired (by rw [write]; decide)
    | true => exact Ascii.paired (by rw [write]; decide)
  | number n small =>
    rw [write]
    exact (writeNumber_ascii small).paired
  | string small =>
    rw [write]
    exact quote_paired small
  | array each ih =>
    rw [write,writeItems_eq]
    refine Paired.append (Paired.append (a := [91]) (Ascii.paired (by decide)) (commas_paired _ fun text member => ?_))
      (Ascii.paired (by decide))
    obtain ⟨item,inside,rfl⟩ := List.mem_map.mp member
    exact ih item inside
  | object keys each ih =>
    rw [write,writeFields_eq]
    refine Paired.append (Paired.append (a := [123]) (Ascii.paired (by decide)) (commas_paired _ fun text member => ?_))
      (Ascii.paired (by decide))
    obtain ⟨field,inside,rfl⟩ := List.mem_map.mp member
    exact (quote_paired (keys field inside)).append
      (Paired.append (a := [58]) (Ascii.paired (by decide)) (ih field inside))
theorem utf8_write {value : Value} (textual : Textual value) : utf8 (utf8Bytes (write value)) = write value :=
  utf8_paired (write_paired textual)

end RelaySwarm.JsonText
