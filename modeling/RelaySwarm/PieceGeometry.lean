import RelaySwarm.Transfer
import RelaySwarm.Link
import RelaySwarm.JsonRoundTrip
import Mathlib.Algebra.Order.Floor.Ring

/-!
One piece geometry on both sides of a link, in the scheduler and in the publisher.
Machine integers wrap and a script's numbers are doubles; up to the largest size the
pieces are the same for all of them (`one_geometry`). The publisher reads a file in
chunks of any lengths and hashes it piece by piece.
-/
namespace RelaySwarm.Pieces
open JsonText (double double_whole)

/-! ### The piece size in machine integers and in doubles -/

/-- What an `i64` operation leaves of a value. -/
def wrap64 (n : Int) : Int := (n + 9223372036854775808) % 18446744073709551616 - 9223372036854775808
/-- `commitment_piece_size` over `i64`. -/
def commitmentPieceSizeI64 (size : Int) : Int :=
  let raw := max 65536 ((wrap64 (size + 63)).tdiv 64)
  wrap64 ((wrap64 (raw + 16383)).tdiv 16384 * 16384)
/-- `commitmentPieceSize` over doubles; `none` is a number that is not finite. -/
def commitmentPieceSizeJs (size : ℚ) : Option ℚ := do
  let parts ← double (size / 64)
  let units ← double (max 65536 (⌈parts⌉ : ℚ) / 16384)
  double ((⌈units⌉ : ℚ) * 16384)

theorem wrap64_small {n : Int} (low : -9223372036854775808 ≤ n) (high : n < 9223372036854775808) : wrap64 n = n := by
  unfold wrap64
  omega
theorem pieceSize_i64 {size : Nat} (small : size ≤ maxSize - 63) :
    commitmentPieceSizeI64 size = commitmentPieceSize size := by
  unfold maxSize at small
  unfold commitmentPieceSizeI64 commitmentPieceSize
  dsimp only
  rw [wrap64_small (n := (size : Int) + 63) (by omega) (by omega)]
  have parts : ((size : Int) + 63).tdiv 64 = ((size + 63) / 64 : Nat) := by
    rw [Int.tdiv_eq_ediv_of_nonneg (by omega)]
    omega
  rw [parts]
  have bound : (size + 63) / 64 ≤ 144115188075855871 := by omega
  generalize (size + 63) / 64 = parts' at bound
  have raw : max (65536 : Int) (parts' : Int) = (max 65536 parts' : Nat) := by omega
  rw [raw]
  have large : max 65536 parts' ≤ 144115188075855871 := by omega
  generalize max 65536 parts' = raw' at large
  rw [wrap64_small (n := (raw' : Int) + 16383) (by omega) (by omega)]
  have units : ((raw' : Int) + 16383).tdiv 16384 = ((raw' + 16383) / 16384 : Nat) := by
    rw [Int.tdiv_eq_ediv_of_nonneg (by omega)]
    omega
  rw [units,wrap64_small (by omega) (by omega)]
  push_cast
  rfl

theorem double_dyadic {n : ℤ} {k : ℕ} (small : n.natAbs < 2 ^ 53) (few : k ≤ 64) :
    double (n / 2 ^ k : ℚ) = some (n / 2 ^ k : ℚ) := by
  rcases eq_or_ne n 0 with rfl | nonzero
  · have zero : ((0 : ℤ) : ℚ) / 2 ^ k = ((0 : ℤ) : ℚ) := by simp
    rw [zero]
    exact double_whole (by omega)
  · have magnitude : |(n / 2 ^ k : ℚ)| = (n.natAbs : ℚ) / 2 ^ k := by
      rw [abs_div,Nat.cast_natAbs,Int.cast_abs,abs_of_pos (pow_pos (two_pos : (0 : ℚ) < 2) k)]
    have positive : (0 : ℚ) < (n.natAbs : ℚ) / 2 ^ k := by
      have some : 0 < n.natAbs := Int.natAbs_pos.mpr nonzero
      positivity
    have split : (2 : ℚ) ^ ((Nat.log 2 n.natAbs : ℤ) - k) = 2 ^ Nat.log 2 n.natAbs / 2 ^ k := by
      rw [zpow_sub₀ two_ne_zero,zpow_natCast,zpow_natCast]
    have above : (2 : ℚ) ^ ((Nat.log 2 n.natAbs : ℤ) - k) ≤ (n.natAbs : ℚ) / 2 ^ k := by
      rw [split]
      refine div_le_div_of_nonneg_right ?_ (by positivity)
      exact_mod_cast Nat.pow_log_le_self 2 (Int.natAbs_ne_zero.mpr nonzero)
    have below : (n.natAbs : ℚ) / 2 ^ k < (2 : ℚ) ^ ((Nat.log 2 n.natAbs : ℤ) - k + 1) := by
      rw [zpow_add_one₀ two_ne_zero,split,div_mul_eq_mul_div]
      refine div_lt_div_of_pos_right ?_ (by positivity)
      rw [← pow_succ]
      exact_mod_cast Nat.lt_pow_succ_log_self one_lt_two n.natAbs
    have log : Int.log 2 ((n.natAbs : ℚ) / 2 ^ k) = (Nat.log 2 n.natAbs : ℤ) - k := by
      have low := (Int.zpow_le_iff_le_log one_lt_two positive).mp (by rw [Nat.cast_ofNat]; exact above)
      have high := (Int.lt_zpow_iff_log_lt one_lt_two positive).mp (by rw [Nat.cast_ofNat]; exact below)
      omega
    have power : Nat.log 2 n.natAbs ≤ 52 := Nat.lt_succ_iff.mp (Nat.log_lt_of_lt_pow' (by omega) small)
    -- The unit divides the value, and so the quotient is whole.
    have exponent : max (Int.log 2 |(n / 2 ^ k : ℚ)| - 52) (-1074) = -((52 - Nat.log 2 n.natAbs + k : ℕ) : ℤ) := by
      have unit : ((52 - Nat.log 2 n.natAbs + k : ℕ) : ℤ) = 52 - (Nat.log 2 n.natAbs : ℤ) + k := by omega
      rw [magnitude,log,unit,max_eq_left (by omega)]
      ring
    have whole : (n / 2 ^ k : ℚ) / 2 ^ (-((52 - Nat.log 2 n.natAbs + k : ℕ) : ℤ)) =
        ((n * 2 ^ (52 - Nat.log 2 n.natAbs) : ℤ) : ℚ) := by
      rw [zpow_neg,zpow_natCast,div_inv_eq_mul,pow_add]
      push_cast
      field_simp
    have finite : ¬ (2 : ℚ) ^ 1024 ≤ |(n / 2 ^ k : ℚ)| := by
      rw [magnitude,not_le]
      have inside : (n.natAbs : ℚ) < 2 ^ 53 := by exact_mod_cast small
      have smaller : (n.natAbs : ℚ) / 2 ^ k ≤ n.natAbs :=
        div_le_self (Nat.cast_nonneg _) (one_le_pow₀ one_le_two)
      exact lt_of_le_of_lt smaller (lt_of_lt_of_le inside (pow_le_pow_right₀ one_le_two (by omega)))
    unfold double
    dsimp only
    rw [exponent,whole,JsonText.roundEven_whole,← whole,div_mul_cancel₀ _ (zpow_ne_zero _ two_ne_zero),if_neg finite]
theorem ceil_div {n d : ℤ} (positive : 0 < d) : ⌈(n : ℚ) / d⌉ = (n + (d - 1)) / d := by
  have split := Int.mul_ediv_add_emod (n + (d - 1)) d
  have low := Int.emod_nonneg (n + (d - 1)) positive.ne'
  have high := Int.emod_lt_of_pos (n + (d - 1)) positive
  have bottom : (0 : ℚ) < d := by exact_mod_cast positive
  rw [Int.ceil_eq_iff]
  generalize (n + (d - 1)) / d = q at split
  have product : d * q = q * d := Int.mul_comm ..
  constructor
  · rw [lt_div_iff₀ bottom]
    have less : (q - 1) * d < n := by
      rw [Int.sub_mul,Int.one_mul]
      omega
    exact_mod_cast less
  · rw [div_le_iff₀ bottom]
    have least : n ≤ q * d := by omega
    exact_mod_cast least
theorem pieceSize_js {size : Int} (safe : size.natAbs < 2 ^ 53) :
    commitmentPieceSizeJs size = some ((commitmentPieceSizeI64 size : Int) : ℚ) := by
  have parts : double ((size : ℚ) / 64) = some ((size : ℚ) / 64) := by
    have exact := double_dyadic (k := 6) safe (by omega)
    norm_num at exact
    exact exact
  have ceiled : ⌈(size : ℚ) / 64⌉ = (size + 63) / 64 := ceil_div (n := size) (d := 64) (by omega)
  have cut : max 65536 ((wrap64 (size + 63)).tdiv 64) = max 65536 ((size + 63) / 64) := by
    rw [wrap64_small (by omega) (by omega)]
    rcases Int.le_total 0 (size + 63) with low | negative
    · rw [Int.tdiv_eq_ediv_of_nonneg low]
    · have truncated : (size + 63).tdiv 64 ≤ 0 := by
        have positive : 0 ≤ (-(size + 63)).tdiv 64 := Int.tdiv_nonneg (by omega) (by omega)
        rw [Int.neg_tdiv] at positive
        omega
      omega
  unfold commitmentPieceSizeJs commitmentPieceSizeI64
  dsimp only
  rw [parts,cut]
  have large : max 65536 ((size + 63) / 64) ≤ 140737488355328 ∧ 0 ≤ max 65536 ((size + 63) / 64) := by omega
  have raw : max (65536 : ℚ) ((((size + 63) / 64 : ℤ)) : ℚ) = ((max 65536 ((size + 63) / 64) : ℤ) : ℚ) := by
    push_cast
    rfl
  simp only [Option.bind_eq_bind,Option.bind_some,ceiled,raw]
  generalize max 65536 ((size + 63) / 64) = raw' at large
  have units : double ((raw' : ℚ) / 16384) = some ((raw' : ℚ) / 16384) := by
    have exact := double_dyadic (n := raw') (k := 14) (by omega) (by omega)
    norm_num at exact
    exact exact
  have ceiled' : ⌈(raw' : ℚ) / 16384⌉ = (raw' + 16383) / 16384 := ceil_div (n := raw') (d := 16384) (by omega)
  rw [units,Option.bind_some,ceiled',wrap64_small (n := raw' + 16383) (by omega) (by omega),
    Int.tdiv_eq_ediv_of_nonneg (by omega),wrap64_small (by omega) (by omega)]
  have whole := double_whole (n := (raw' + 16383) / 16384 * 16384) (by omega)
  push_cast at whole ⊢
  exact whole

/-! ### Tiles -/

theorem piece_end {size count : Nat} (counted : pieceCount size = some count) (index : Nat) (inside : index < count) :
    index * commitmentPieceSize size + pieceBytes size (commitmentPieceSize size) index =
      min ((index + 1) * commitmentPieceSize size) size := by
  have below : index * commitmentPieceSize size < size := by
    have last := (pieceCount_covers counted).2
    have least : index * commitmentPieceSize size ≤ (count - 1) * commitmentPieceSize size :=
      Nat.mul_le_mul_right _ (by omega)
    omega
  unfold pieceBytes
  rw [Nat.add_mul,Nat.one_mul]
  omega
/-- Every byte of an object is in one piece, no piece is empty, and they follow each other. -/
structure Tiles (size count : Nat) : Prop where
  filled : ∀ index < count, 0 < pieceBytes size (commitmentPieceSize size) index
  next : ∀ index, index + 1 < count →
    index * commitmentPieceSize size + pieceBytes size (commitmentPieceSize size) index =
      (index + 1) * commitmentPieceSize size
  last : (count - 1) * commitmentPieceSize size + pieceBytes size (commitmentPieceSize size) (count - 1) = size
  one : ∀ k < size, ∃! index, index < count ∧ index * commitmentPieceSize size ≤ k ∧
    k < index * commitmentPieceSize size + pieceBytes size (commitmentPieceSize size) index
theorem pieces_tile {size count : Nat} (counted : pieceCount size = some count) : Tiles size count := by
  have positive := pieceSize_pos size
  have some := pieceCount_pos counted
  obtain ⟨covers,below⟩ := pieceCount_covers counted
  have ends := fun index inside => piece_end counted index inside
  have starts : ∀ index, index < count → index * commitmentPieceSize size < size := by
    intro index inside
    have least : index * commitmentPieceSize size ≤ (count - 1) * commitmentPieceSize size :=
      Nat.mul_le_mul_right _ (by omega)
    omega
  refine ⟨fun index inside => ?_,fun index inside => ?_,?_,fun k inside => ?_⟩
  · have stop := ends index inside
    have start := starts index inside
    rw [Nat.add_mul,Nat.one_mul] at stop
    omega
  · have start := starts (index + 1) inside
    rw [ends index (by omega)]
    omega
  · have stop := ends (count - 1) (by omega)
    rw [Nat.sub_add_cancel some] at stop
    omega
  · have split := Nat.div_add_mod k (commitmentPieceSize size)
    have rest := Nat.mod_lt k positive
    have order : commitmentPieceSize size * (k / commitmentPieceSize size) =
        k / commitmentPieceSize size * commitmentPieceSize size :=
      Nat.mul_comm ..
    have index : k / commitmentPieceSize size < count := (Nat.div_lt_iff_lt_mul positive).mpr (by omega)
    have stop := ends _ index
    have above := Nat.add_mul (k / commitmentPieceSize size) 1 (commitmentPieceSize size)
    refine ⟨k / commitmentPieceSize size,⟨index,by omega,by omega⟩,?_⟩
    rintro other ⟨within,low,high⟩
    have stop' := ends other within
    have above' := Nat.add_mul other 1 (commitmentPieceSize size)
    refine (Nat.div_eq_of_lt_le low ?_).symm
    omega

/-! ### Bytes of a range -/

/-- The bytes a range names within an object. -/
def slice (size : Nat) (range : PieceRange) : Nat × Nat :=
  (range.start * commitmentPieceSize size,min (range.stop * commitmentPieceSize size) size)
/-- A range of an object with at least one piece. -/
structure Within (count : Nat) (range : PieceRange) : Prop where
  some : range.start < range.stop
  inside : range.stop ≤ count

section
variable {size count : Nat} {range : PieceRange}

theorem rangeBytes_slice (counted : pieceCount size = some count) (within : Within count range) :
    rangeBytes size range = some (slice size range) := by
  have few := pieceCount_le counted
  have some := within.some
  have inside := within.inside
  unfold rangeBytes
  rw [counted]
  dsimp only
  rw [if_neg (by omega)]
  rfl
theorem indices_succ {start stop : Nat} (some : start ≤ stop) :
    (⟨start,stop + 1⟩ : PieceRange).indices = (⟨start,stop⟩ : PieceRange).indices ++ [stop] := by
  simp only [PieceRange.indices]
  rw [show stop + 1 - start = stop - start + 1 by omega,List.range'_1_concat]
  congr 2
  omega
theorem pieceBytes_sum (counted : pieceCount size = some count) {start : Nat} : ∀ stop, start ≤ stop → stop ≤ count →
    ((⟨start,stop⟩ : PieceRange).indices.map (pieceBytes size (commitmentPieceSize size))).sum =
      min (stop * commitmentPieceSize size) size - min (start * commitmentPieceSize size) size := by
  intro stop order
  induction stop, order using Nat.le_induction with
  | base => intro _; simp [PieceRange.indices]
  | succ stop order ih =>
    intro inside
    have stops := piece_end counted stop (by omega)
    have below : start * commitmentPieceSize size ≤ stop * commitmentPieceSize size := Nat.mul_le_mul_right _ order
    rw [indices_succ order,List.map_append,List.sum_append,ih (by omega)]
    simp only [List.map_cons,List.map_nil,List.sum_cons,List.sum_nil]
    have after := Nat.add_mul stop 1 (commitmentPieceSize size)
    omega
theorem pieceOf_flatten (counted : pieceCount size = some count) {object : List UInt8} (length : object.length = size)
    {start : Nat} : ∀ stop, start ≤ stop → stop ≤ count →
    ((⟨start,stop⟩ : PieceRange).indices.map (fun index =>
      pieceOf size (commitmentPieceSize size) index object)).flatten =
      (object.take (min (stop * commitmentPieceSize size) size)).drop (start * commitmentPieceSize size) := by
  intro stop order
  induction stop, order using Nat.le_induction with
  | base =>
    intro _
    rw [List.drop_eq_nil_of_le (by rw [List.length_take]; omega)]
    simp [PieceRange.indices]
  | succ stop order ih =>
    intro inside
    have stops := piece_end counted stop (by omega)
    have within : stop * commitmentPieceSize size < size := by
      have last := (pieceCount_covers counted).2
      have least : stop * commitmentPieceSize size ≤ (count - 1) * commitmentPieceSize size :=
        Nat.mul_le_mul_right _ (by omega)
      omega
    have below : start * commitmentPieceSize size ≤ stop * commitmentPieceSize size := Nat.mul_le_mul_right _ order
    rw [indices_succ order,List.map_append,List.flatten_append,ih (by omega),min_eq_left (by omega),← stops,
      List.take_add,List.drop_append_of_le_length (by rw [List.length_take]; omega)]
    simp [pieceOf]
end

/-! ### The publisher's reading -/

/-- The digests of the pieces read so far, and what its open digest was fed. -/
structure PieceHashes (Digest : Type) where
  pieces : List Digest
  piece : List UInt8
  pieceFill : Nat

section
variable {Digest : Type} (sha256 : List UInt8 → Digest) (pieceSize : Nat)

/-- A chunk goes into the open piece; a full piece is closed. At least one byte goes in
    each time, so as many steps as the chunk has bytes suffice. -/
def feedPieces : Nat → PieceHashes Digest → List UInt8 → PieceHashes Digest
  | 0,state,_ => state
  | fuel + 1,state,chunk =>
    if chunk = [] then state
    else
      let take := min chunk.length (pieceSize - state.pieceFill)
      let piece := state.piece ++ chunk.take take
      let pieceFill := state.pieceFill + take
      feedPieces fuel
        (if pieceFill = pieceSize then ⟨state.pieces ++ [sha256 piece],[],0⟩ else ⟨state.pieces,piece,pieceFill⟩)
        (chunk.drop take)
/-- The piece digests of a file read in these chunks. -/
def hashPieces (chunks : List (List UInt8)) : List Digest :=
  let read := chunks.foldl (fun state chunk => feedPieces sha256 pieceSize chunk.length state chunk) ⟨[],[],0⟩
  if read.pieceFill = 0 then read.pieces else read.pieces ++ [sha256 read.piece]

/-- The pieces closed so far are those of the bytes read, and the open one has the rest. -/
structure Fed (state : PieceHashes Digest) (read : List UInt8) : Prop where
  fill : state.pieceFill = state.piece.length
  short : state.pieceFill < pieceSize
  pieces : state.pieces = (List.range state.pieces.length).map
    (fun index => sha256 ((read.drop (index * pieceSize)).take pieceSize))
  length : read.length = state.pieces.length * pieceSize + state.pieceFill
  rest : state.piece = read.drop (state.pieces.length * pieceSize)

variable {sha256 pieceSize}

theorem closed_append (sha256 : List UInt8 → Digest) {read : List UInt8} {count : Nat}
    (long : count * pieceSize ≤ read.length) (bytes : List UInt8) :
    (List.range count).map (fun index => sha256 (((read ++ bytes).drop (index * pieceSize)).take pieceSize)) =
      (List.range count).map (fun index => sha256 ((read.drop (index * pieceSize)).take pieceSize)) := by
  refine List.map_congr_left fun index member => ?_
  have inside : (index + 1) * pieceSize ≤ count * pieceSize := Nat.mul_le_mul_right _ (List.mem_range.mp member)
  rw [Nat.add_mul,Nat.one_mul] at inside
  rw [List.drop_append_of_le_length (by omega),List.take_append_of_le_length (by rw [List.length_drop]; omega)]
theorem Fed.more {state : PieceHashes Digest} {read : List UInt8} (fed : Fed sha256 pieceSize state read)
    (bytes : List UInt8) (fits : state.pieceFill + bytes.length ≤ pieceSize) :
    Fed sha256 pieceSize (if state.pieceFill + bytes.length = pieceSize
      then ⟨state.pieces ++ [sha256 (state.piece ++ bytes)],[],0⟩
      else ⟨state.pieces,state.piece ++ bytes,state.pieceFill + bytes.length⟩) (read ++ bytes) := by
  have short := fed.short
  have long : state.pieces.length * pieceSize ≤ read.length := by
    have length := fed.length
    omega
  have isOpen : (read ++ bytes).drop (state.pieces.length * pieceSize) = state.piece ++ bytes := by
    rw [List.drop_append_of_le_length long,← fed.rest]
  have known := closed_append sha256 long bytes
  split_ifs with full
  · have next : (state.pieces.length + 1) * pieceSize = state.pieces.length * pieceSize + pieceSize := by ring
    refine ⟨rfl,by dsimp only; omega,?_,?_,?_⟩
    · rw [List.length_append,List.length_singleton,List.range_succ,List.map_append,known,← fed.pieces]
      simp only [List.map_cons,List.map_nil]
      rw [isOpen,List.take_of_length_le (by rw [List.length_append,← fed.fill]; omega)]
    · dsimp only
      rw [List.length_append,List.length_append,List.length_singleton,fed.length,next]
      omega
    · rw [List.length_append,List.length_singleton,next,List.drop_eq_nil_of_le]
      rw [List.length_append,fed.length]
      omega
  · refine ⟨?_,by dsimp only; omega,?_,?_,isOpen.symm⟩
    · rw [List.length_append,fed.fill]
    · dsimp only
      rw [known]
      exact fed.pieces
    · dsimp only
      rw [List.length_append,fed.length]
      omega
theorem feed_fed (fuel : Nat) : ∀ {state : PieceHashes Digest} {read chunk : List UInt8}, chunk.length ≤ fuel →
    Fed sha256 pieceSize state read →
      Fed sha256 pieceSize (feedPieces sha256 pieceSize fuel state chunk) (read ++ chunk) := by
  induction fuel with
  | zero =>
    intro state read chunk few fed
    rw [List.length_eq_zero_iff.mp (Nat.le_zero.mp few),List.append_nil]
    exact fed
  | succ fuel ih =>
    intro state read chunk few fed
    unfold feedPieces
    split_ifs with empty
    · rw [empty,List.append_nil]
      exact fed
    · have short := fed.short
      have some : 0 < chunk.length := List.length_pos_of_ne_nil empty
      have took : (chunk.take (min chunk.length (pieceSize - state.pieceFill))).length =
          min chunk.length (pieceSize - state.pieceFill) := by
        rw [List.length_take]
        omega
      have step := fed.more (chunk.take (min chunk.length (pieceSize - state.pieceFill))) (by rw [took]; omega)
      rw [took] at step
      have whole := @ih _ _ (chunk.drop (min chunk.length (pieceSize - state.pieceFill)))
        (by rw [List.length_drop]; omega) step
      rw [List.append_assoc,List.take_append_drop] at whole
      exact whole
theorem feedAll_fed (chunks : List (List UInt8)) : ∀ {state : PieceHashes Digest} {read : List UInt8},
    Fed sha256 pieceSize state read →
    Fed sha256 pieceSize (chunks.foldl (fun state chunk => feedPieces sha256 pieceSize chunk.length state chunk) state)
      (read ++ chunks.flatten) := by
  induction chunks with
  | nil => intro state read fed; simpa using fed
  | cons chunk rest ih =>
    intro state read fed
    have next := ih (feed_fed chunk.length (Nat.le_refl _) fed)
    rwa [List.append_assoc] at next
end

theorem hashPieces_pieces {Digest : Type} (sha256 : List UInt8 → Digest) {size count : Nat}
    (counted : pieceCount size = some count) {object : List UInt8} (length : object.length = size)
    (chunks : List (List UInt8)) (read : chunks.flatten = object) :
    hashPieces sha256 (commitmentPieceSize size) chunks =
      (List.range count).map (fun index => sha256 (pieceOf size (commitmentPieceSize size) index object)) := by
  have positive := pieceSize_pos size
  have start : Fed sha256 (commitmentPieceSize size) (⟨[],[],0⟩ : PieceHashes Digest) [] :=
    ⟨rfl,positive,rfl,by simp,by simp⟩
  have fed := feedAll_fed chunks start
  rw [List.nil_append,read] at fed
  unfold hashPieces
  dsimp only
  generalize chunks.foldl (fun state chunk => feedPieces sha256 (commitmentPieceSize size) chunk.length state chunk)
    ⟨[],[],0⟩ =
    state at fed
  have all := fed.length
  have short := fed.short
  rw [length] at all
  have tiles := pieces_tile counted
  obtain ⟨covers,below⟩ := pieceCount_covers counted
  have some := pieceCount_pos counted
  -- A closed piece is a full one, and only the last canonical piece may be shorter.
  have full : ∀ index, (index + 1) * commitmentPieceSize size ≤ size →
      pieceBytes size (commitmentPieceSize size) index =
      commitmentPieceSize size := by
    intro index inside
    rw [Nat.add_mul,Nat.one_mul] at inside
    unfold pieceBytes
    omega
  have closed : state.pieces = (List.range state.pieces.length).map (fun index =>
      sha256 (pieceOf size (commitmentPieceSize size) index object)) := by
    refine fed.pieces.trans (List.map_congr_left fun index member => ?_)
    have inside : (index + 1) * commitmentPieceSize size ≤ state.pieces.length * commitmentPieceSize size :=
      Nat.mul_le_mul_right _ (List.mem_range.mp member)
    unfold pieceOf
    rw [full index (by omega)]
  have order : ∀ k, (k - 1) * commitmentPieceSize size = k * commitmentPieceSize size - commitmentPieceSize size := by
    intro k
    rw [Nat.sub_mul,Nat.one_mul]
  split_ifs with empty
  · have same : state.pieces.length = count := by
      have least : count ≤ state.pieces.length := by
        by_contra fewer
        have gap : state.pieces.length * commitmentPieceSize size ≤ (count - 1) * commitmentPieceSize size :=
          Nat.mul_le_mul_right _ (by omega)
        omega
      have most : state.pieces.length ≤ count := Nat.le_of_mul_le_mul_right (by omega) positive
      omega
    rw [← same]
    exact closed
  · have same : count = state.pieces.length + 1 := by
      have least : state.pieces.length < count := by
        refine Nat.lt_of_mul_lt_mul_right (a := commitmentPieceSize size) ?_
        omega
      have most : count - 1 ≤ state.pieces.length := by
        by_contra more
        have gap : (state.pieces.length + 1) * commitmentPieceSize size ≤ (count - 1) * commitmentPieceSize size :=
          Nat.mul_le_mul_right _ (by omega)
        rw [Nat.add_mul,Nat.one_mul] at gap
        omega
      omega
    rw [same,List.range_succ,List.map_append,← closed,fed.rest]
    simp only [List.map_cons,List.map_nil]
    unfold pieceOf
    rw [List.take_of_length_le]
    have stop := piece_end counted state.pieces.length (by omega)
    have next := Nat.add_mul state.pieces.length 1 (commitmentPieceSize size)
    rw [List.length_drop,length]
    omega

/-! ### The same for all -/

/-- The bytes every computation takes for a range of an object of this size: offsets fit
    64 bits, a requester and the scheduler compute the slice, the pieces add up to it, a
    holder answers with it, and the publisher's digests are those of its pieces. -/
structure Agreed (size : Nat) (range : PieceRange) : Prop where
  offsets : range.stop * commitmentPieceSize size < 18446744073709551616
  requester : rangeBytes size range = some (slice size range)
  scheduler : ∀ config sha256 pieces deadline t, Transfers.Transfer.new config size sha256 pieces deadline = some t →
    t.pieceRangeBytes range = slice size range
  sum : (slice size range).1 + (range.indices.map (pieceBytes size (commitmentPieceSize size))).sum =
    (slice size range).2
  holder : ∀ (config : Links.LinkConfig) (object : List UInt8), object.length = size →
    Links.responseBytes config (some range) object none =
      some ((object.take (slice size range).2).drop (slice size range).1)
  publisher : ∀ (Digest : Type) (sha256 : List UInt8 → Digest) (object : List UInt8) (chunks : List (List UInt8)),
    object.length = size → chunks.flatten = object →
    ((hashPieces sha256 (commitmentPieceSize size) chunks).drop range.start).take (range.stop - range.start) =
      range.indices.map (fun index => sha256 (pieceOf size (commitmentPieceSize size) index object)) ∧
    (range.indices.map (fun index => pieceOf size (commitmentPieceSize size) index object)).flatten =
      (object.take (slice size range).2).drop (slice size range).1
theorem new_geometry {config : Transfers.TransferConfig} {size : Nat} {sha256 : String} {pieces : List String}
    {deadline : Nat}
    {t : Transfers.Transfer} (made : Transfers.Transfer.new config size sha256 pieces deadline = some t) :
    t.size = size ∧ t.pieceSize = commitmentPieceSize size := by
  unfold Transfers.Transfer.new at made
  cases counted : pieceCount size with
  | none => simp [counted] at made
  | some count =>
    simp only [counted,Option.bind_eq_bind,Option.bind_some] at made
    split at made
    · cases made
    · simp only [Option.bind_eq_some_iff] at made
      obtain ⟨hashes,_,whole,_,same⟩ := made
      cases same
      exact ⟨rfl,rfl⟩
theorem range_agreed {size count : Nat} (small : size ≤ maxSize - 63) (counted : pieceCount size = some count)
    {range : PieceRange} (within : Within count range) : Agreed size range := by
  have few := pieceCount_le counted
  have ordered := within.some
  have inside := within.inside
  have starts : range.start * commitmentPieceSize size ≤ (count - 1) * commitmentPieceSize size :=
    Nat.mul_le_mul_right _ (by omega)
  have below := (pieceCount_covers counted).2
  refine ⟨?_,rangeBytes_slice counted within,?_,?_,?_,?_⟩
  · unfold maxPieces at few
    unfold maxSize at small
    have bound : commitmentPieceSize size ≤ 144115188075872256 := by
      unfold commitmentPieceSize
      dsimp only
      omega
    calc range.stop * commitmentPieceSize size ≤ 64 * 144115188075872256 := Nat.mul_le_mul (by omega) bound
      _ < 18446744073709551616 := by omega
  · intro config sha256 pieces deadline t made
    obtain ⟨size',pieceSize⟩ := new_geometry made
    unfold Transfers.Transfer.pieceRangeBytes slice
    rw [size',pieceSize]
  · have sum := pieceBytes_sum counted range.stop (Nat.le_of_lt ordered) inside
    have above : range.start * commitmentPieceSize size ≤ range.stop * commitmentPieceSize size :=
      Nat.mul_le_mul_right _ (Nat.le_of_lt ordered)
    rw [sum]
    unfold slice
    dsimp only
    omega
  · intro config object length
    unfold Links.responseBytes
    dsimp only
    rw [length,rangeBytes_slice counted within]
    rfl
  · intro Digest sha256 object chunks length read
    refine ⟨?_,pieceOf_flatten counted length range.stop (Nat.le_of_lt ordered) inside⟩
    rw [hashPieces_pieces sha256 counted length chunks read,← List.map_drop,← List.map_take,List.range_eq_range',
      List.drop_range',List.take_range'_of_length_ge (by omega),Nat.zero_add,Nat.mul_one]
    rfl
/-- Up to the largest size there are between one and 64 pieces of at least 64 KiB but the
    last, their size is a multiple of 16 KiB, they tile the object, and every computation
    takes the same bytes for every range of them. The core and the script agree on the
    piece size at every safe integer. -/
theorem one_geometry :
    (∀ size, 1 ≤ size → size ≤ maxSize - 63 → ∃ count, pieceCount size = some count ∧ 1 ≤ count ∧ count ≤ 64 ∧
      Tiles size count ∧ 16384 ∣ commitmentPieceSize size ∧ 65536 ≤ commitmentPieceSize size ∧
      commitmentPieceSizeI64 size = commitmentPieceSize size ∧
      ∀ range : PieceRange, range.start < range.stop → range.stop ≤ count → Agreed size range) ∧
    ∀ size : Int, size.natAbs < 2 ^ 53 → commitmentPieceSizeJs size =
      some ((commitmentPieceSizeI64 size : Int) : ℚ) := by
  refine ⟨fun size some small => ?_,fun size safe => pieceSize_js safe⟩
  obtain ⟨count,counted⟩ : ∃ count, pieceCount size = .some count := by
    unfold pieceCount
    unfold maxSize at small ⊢
    rw [if_neg (by omega)]
    exact ⟨_,rfl⟩
  have large : 65536 ≤ commitmentPieceSize size := by
    unfold commitmentPieceSize
    dsimp only
    omega
  exact ⟨count,counted,pieceCount_pos counted,pieceCount_le counted,pieces_tile counted,
    ⟨_,Nat.mul_comm ..⟩,large,pieceSize_i64 small,fun range ordered inside =>
      range_agreed small counted ⟨ordered,inside⟩⟩

end RelaySwarm.Pieces
