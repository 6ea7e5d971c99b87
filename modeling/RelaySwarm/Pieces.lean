import Mathlib.Algebra.Order.Ring.Rat
import Mathlib.Data.List.Range
import Mathlib.Tactic.Ring
import Mathlib.Tactic.Linarith

/-!
Pieces of one object under commitment schema 3. The piece size is a function of
the object size alone, so two parties agree on every byte offset. `runs` joins
ascending indices into contiguous ranges and loses none (`indices_runs`).
-/
namespace RelaySwarm.Pieces

def maxPieces : Nat := 64

/-- The schema 3 piece size: at least 64 KiB, at most 64 pieces per object and a
    multiple of 16 KiB. -/
def commitmentPieceSize (size : Nat) : Nat :=
  let raw := max 65536 ((size + 63) / 64)
  (raw + 16383) / 16384 * 16384

/-- Pieces `start..stop`, the end excluded, of one object. -/
structure PieceRange where
  start : Nat
  stop : Nat
deriving DecidableEq, Repr

/-- The largest `i64`: no object is larger. -/
def maxSize : Nat := 9223372036854775807

/-- The number of pieces of an object, or `none` for an empty object. -/
def pieceCount (size : Nat) : Option Nat :=
  if size = 0 ∨ maxSize < size then none
  else some ((size + commitmentPieceSize size - 1) / commitmentPieceSize size)

/-- The byte offsets of a range within an object, or `none` when the range is
    empty or runs past the last piece. -/
def rangeBytes (size : Nat) (range : PieceRange) : Option (Nat × Nat) :=
  match pieceCount size with
  | none => none
  | some count =>
    if range.start ≥ range.stop ∨ count < range.stop ∨ maxPieces < range.stop then none
    else some (range.start * commitmentPieceSize size, min (range.stop * commitmentPieceSize size) size)

/-- The length of one piece; zero past the end. -/
def pieceBytes (size pieceSize index : Nat) : Nat :=
  min (index * pieceSize + pieceSize) size - index * pieceSize

/-- The bytes of one piece of an object. -/
def pieceOf (size pieceSize index : Nat) (object : List UInt8) : List UInt8 :=
  (object.drop (index * pieceSize)).take (pieceBytes size pieceSize index)

def PieceRange.indices (range : PieceRange) : List Nat := List.range' range.start (range.stop - range.start)
def indices (ranges : List PieceRange) : List Nat := ranges.flatMap PieceRange.indices

/-- One more index on runs kept last first: it extends the last run or starts one. -/
def extendRuns (done : List PieceRange) (index : Nat) : List PieceRange :=
  match done with
  | [] => [⟨index,index+1⟩]
  | last :: rest => if last.stop = index then ⟨last.start,last.stop+1⟩ :: rest else ⟨index,index+1⟩ :: last :: rest
def runs (pieces : List Nat) : List PieceRange := (pieces.foldl extendRuns []).reverse

theorem pieceSize_pos (size : Nat) : 0 < commitmentPieceSize size := by
  unfold commitmentPieceSize
  have large : 65536 ≤ max 65536 ((size + 63) / 64) := le_max_left ..
  simp only
  omega
theorem pieceSize_covers (size : Nat) : size ≤ 64 * commitmentPieceSize size := by
  unfold commitmentPieceSize
  have large : (size + 63) / 64 ≤ max 65536 ((size + 63) / 64) := le_max_right ..
  simp only
  omega

theorem pieceCount_pos {size count : Nat} (counted : pieceCount size = some count) : 0 < count := by
  unfold pieceCount at counted
  split_ifs at counted with none
  have positive := pieceSize_pos size
  cases counted
  push Not at none
  exact Nat.div_pos (by omega) positive
theorem pieceCount_le {size count : Nat} (counted : pieceCount size = some count) : count ≤ maxPieces := by
  unfold pieceCount at counted
  split_ifs at counted
  have positive := pieceSize_pos size
  have covers := pieceSize_covers size
  cases counted
  have bound : size + commitmentPieceSize size - 1 < 65 * commitmentPieceSize size := by omega
  have := (Nat.div_lt_iff_lt_mul positive).mpr bound
  exact Nat.lt_succ_iff.mp this
theorem pieceCount_covers {size count : Nat} (counted : pieceCount size = some count) :
    size ≤ count * commitmentPieceSize size ∧ (count - 1) * commitmentPieceSize size < size := by
  unfold pieceCount at counted
  split_ifs at counted with none
  have positive := pieceSize_pos size
  generalize commitmentPieceSize size = p at counted positive
  cases counted
  push Not at none
  have split := Nat.div_add_mod (size + p - 1) p
  have rest := Nat.mod_lt (size + p - 1) positive
  generalize (size + p - 1) / p = q at *
  have product : p * q = q * p := Nat.mul_comm ..
  have less : (q - 1) * p = q * p - p := by rw [Nat.sub_mul,Nat.one_mul]
  constructor
  · omega
  · rw [less]; omega

theorem mem_range_indices {range : PieceRange} {i : Nat} :
    i ∈ range.indices ↔ range.start ≤ i ∧ i < range.stop := by
  simp only [PieceRange.indices,List.mem_range'_1]
  omega
theorem mem_indices {ranges : List PieceRange} {i : Nat} :
    i ∈ indices ranges ↔ ∃ range ∈ ranges, range.start ≤ i ∧ i < range.stop := by
  simp only [indices,List.mem_flatMap,mem_range_indices]
@[simp] theorem indices_nil : indices [] = [] := rfl
@[simp] theorem indices_append (a b : List PieceRange) : indices (a ++ b) = indices a ++ indices b := by
  simp [indices]
@[simp] theorem indices_cons (r : PieceRange) (rest : List PieceRange) :
    indices (r :: rest) = r.indices ++ indices rest := by simp [indices]

private theorem extend_indices (done : List PieceRange) (index : Nat) (proper : ∀ r ∈ done, r.start < r.stop) :
    indices (extendRuns done index).reverse = indices done.reverse ++ [index] ∧
      ∀ r ∈ extendRuns done index, r.start < r.stop := by
  have single : (⟨index,index+1⟩ : PieceRange).indices = [index] := by simp [PieceRange.indices]
  cases done with
  | nil => exact ⟨by simp [extendRuns,single],by simp [extendRuns]⟩
  | cons last rest =>
    unfold extendRuns
    by_cases next : last.stop = index
    · have ordered := proper last (by simp)
      have grown : (⟨last.start,last.stop+1⟩ : PieceRange).indices = last.indices ++ [last.stop] := by
        simp only [PieceRange.indices]
        rw [show last.stop + 1 - last.start = last.stop - last.start + 1 by omega,List.range'_1_concat]
        congr 2
        omega
      subst next
      refine ⟨by simp [grown],?_⟩
      simp only [if_true,List.mem_cons,forall_eq_or_imp]
      exact ⟨by omega,fun r member => proper r (by simp [member])⟩
    · simp only [next,if_false]
      refine ⟨by simp [single],?_⟩
      simp only [List.mem_cons,forall_eq_or_imp]
      exact ⟨by omega,proper last (by simp),fun r member => proper r (by simp [member])⟩
private theorem fold_indices (pieces : List Nat) : ∀ done : List PieceRange, (∀ r ∈ done, r.start < r.stop) →
    indices (pieces.foldl extendRuns done).reverse = indices done.reverse ++ pieces ∧
      ∀ r ∈ pieces.foldl extendRuns done, r.start < r.stop := by
  induction pieces with
  | nil => intro done proper; exact ⟨by simp,proper⟩
  | cons index rest ih =>
    intro done proper
    obtain ⟨listed,extended⟩ := extend_indices done index proper
    obtain ⟨all,ordered⟩ := ih _ extended
    exact ⟨by simp [all,listed],ordered⟩
theorem indices_runs (pieces : List Nat) : indices (runs pieces) = pieces := by
  simpa [runs] using (fold_indices pieces [] (by simp)).1
theorem runs_proper {pieces : List Nat} {r : PieceRange} (member : r ∈ runs pieces) : r.start < r.stop :=
  (fold_indices pieces [] (by simp)).2 r (by simpa [runs] using member)
theorem runs_eq_nil {pieces : List Nat} : runs pieces = [] ↔ pieces = [] := by
  constructor
  · intro none
    rw [← indices_runs pieces,none]; rfl
  · rintro rfl; rfl

/-! ### Writing one piece -/

/-- An object after one piece of it is written. -/
def writePiece (size pieceSize index : Nat) (object piece : List UInt8) : List UInt8 :=
  object.take (index * pieceSize) ++ piece ++ object.drop (min ((index + 1) * pieceSize) size)

section
variable {size pieceSize index : Nat} {object piece : List UInt8}

theorem writePiece_length (length : object.length = size) (inside : index * pieceSize ≤ size)
    (fits : piece.length = pieceBytes size pieceSize index) :
    (writePiece size pieceSize index object piece).length = size := by
  unfold pieceBytes at fits
  have next : (index + 1) * pieceSize = index * pieceSize + pieceSize := by ring
  simp only [writePiece,List.length_append,List.length_take,List.length_drop,next,fits,length]
  omega
theorem pieceOf_write_self (length : object.length = size) (inside : index * pieceSize ≤ size)
    (fits : piece.length = pieceBytes size pieceSize index) :
    pieceOf size pieceSize index (writePiece size pieceSize index object piece) = piece := by
  have before : (object.take (index * pieceSize)).length = index * pieceSize := by
    rw [List.length_take,length]; omega
  rw [pieceOf,writePiece,List.append_assoc,List.drop_append,before,Nat.sub_self,List.drop_zero,
    List.drop_eq_nil_of_le (by omega),List.nil_append,← fits,List.take_left]
theorem pieceOf_write_other (length : object.length = size) (inside : index * pieceSize ≤ size)
    (fits : piece.length = pieceBytes size pieceSize index) {other : Nat} (differs : other ≠ index) :
    pieceOf size pieceSize other (writePiece size pieceSize index object piece) =
      pieceOf size pieceSize other object := by
  have before : (object.take (index * pieceSize)).length = index * pieceSize := by
    rw [List.length_take,length]; omega
  have next : (index + 1) * pieceSize = index * pieceSize + pieceSize := by ring
  have apart : other * pieceSize + pieceSize ≤ index * pieceSize ∨
      index * pieceSize + pieceSize ≤ other * pieceSize := by
    rcases Nat.lt_or_gt_of_ne differs with low | high
    · left
      calc other * pieceSize + pieceSize = (other + 1) * pieceSize := by ring
        _ ≤ index * pieceSize := Nat.mul_le_mul_right _ low
    · right
      calc index * pieceSize + pieceSize = (index + 1) * pieceSize := by ring
        _ ≤ other * pieceSize := Nat.mul_le_mul_right _ high
  unfold pieceBytes at fits
  refine List.ext_getElem? (fun k => ?_)
  unfold pieceOf pieceBytes
  rw [List.getElem?_take,List.getElem?_take]
  split_ifs with short
  · rw [List.getElem?_drop,List.getElem?_drop,writePiece,List.append_assoc]
    rcases apart with low | high
    · rw [List.getElem?_append_left (by rw [before]; omega),List.getElem?_take_of_lt (by omega)]
    · rw [List.getElem?_append_right (by rw [before]; omega),before,List.getElem?_append_right (by omega),
        List.getElem?_drop,next]
      congr 1
      omega
  · rfl
end
theorem pieces_determine {size pieceSize count : Nat} {a b : List UInt8} (alength : a.length = size)
    (blength : b.length = size) (covers : size ≤ count * pieceSize)
    (each : ∀ i < count, pieceOf size pieceSize i a = pieceOf size pieceSize i b) : a = b := by
  refine List.ext_getElem? (fun k => ?_)
  by_cases inside : k < size
  · have positive : 0 < pieceSize := by
      rcases Nat.eq_zero_or_pos pieceSize with none | some
      · rw [none,Nat.mul_zero] at covers
        omega
      · exact some
    have split := Nat.div_add_mod k pieceSize
    have rest := Nat.mod_lt k positive
    have index : k / pieceSize < count := by
      rw [Nat.div_lt_iff_lt_mul positive]
      omega
    have same := congrArg (fun piece => piece[k % pieceSize]?) (each _ index)
    have order : pieceSize * (k / pieceSize) = k / pieceSize * pieceSize := Nat.mul_comm ..
    simp only [pieceOf,pieceBytes] at same
    rw [List.getElem?_take_of_lt (by omega),List.getElem?_take_of_lt (by omega),List.getElem?_drop,List.getElem?_drop,
      ← order,split] at same
    exact same
  · rw [List.getElem?_eq_none (by omega),List.getElem?_eq_none (by omega)]

end RelaySwarm.Pieces
