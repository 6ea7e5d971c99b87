import RelaySwarm.PieceGeometry

/-!
The publisher hashes a record in one pass over its file, with one digest for all of it
and one for each piece. However long the reads are, the digests are those of the bytes
and of their slices (`record_hashed`). A digest is fed by appending to its bytes.
-/
namespace RelaySwarm.Pieces

def maxSegment : Nat := 16 * 1024 * 1024
def maxReadBytes : Nat := 64 * 1024
inductive HashError where
  | bounds | changed
deriving DecidableEq
def HashError.message : HashError → String
  | .bounds => "Media size is outside bounds."
  | .changed => "Media changed during reading."
def HashError.status : HashError → Option Nat
  | .bounds => none
  | .changed => some 503
/-- A file, or a range of its bytes; its results are kept under the three together. -/
structure Record where
  path : String
  rangeStart : Option Nat
  rangeEnd : Option Nat
deriving DecidableEq
/-- What is known of a file before it is read. Its stamp names the device, the inode, the
    size and the times of the file. -/
structure FileStat where
  isFile : Bool
  size : Nat
  stamp : String
structure HashResult (Digest : Type) where
  version : String
  sha256 : Digest
  size : Nat
  /-- The piece size with the digests of the pieces, under schema 3. -/
  pieces : Option (Nat × List Digest)
/-- How far a file is read, what the whole digest was fed, and the pieces. -/
structure HashPass (Digest : Type) where
  offset : Nat
  hash : List UInt8
  pieces : PieceHashes Digest

section
variable {Digest : Type} (sha256 : List UInt8 → Digest)

/-- What a handle gives of a file from a position: as many bytes as it likes, at most
    those that are asked for. -/
def readAt (file : List UInt8) (position length given : Nat) : List UInt8 :=
  (file.drop position).take (min given length)
/-- One read; the pieces are hashed when there is a piece size. -/
def HashPass.read (pass : HashPass Digest) (pieceSize : Option Nat) (chunk : List UInt8) : HashPass Digest where
  offset := pass.offset + chunk.length
  hash := pass.hash ++ chunk
  pieces := pieceSize.elim pass.pieces (fun pieceSize => feedPieces sha256 pieceSize chunk.length pass.pieces chunk)
/-- The reads of a record, each of a length the handle chose. Every read has a byte, so
    as many as there are bytes left reach the end. -/
def readRecord (file : List UInt8) (start size : Nat) (pieceSize : Option Nat) (reads : Nat → Nat) :
    Nat → Nat → HashPass Digest → Except HashError (HashPass Digest)
  | 0,_,pass => .ok pass
  | left + 1,k,pass =>
    if size ≤ pass.offset then .ok pass
    else
      let chunk := readAt file (start + pass.offset) (min (min size maxReadBytes) (size - pass.offset)) (reads k)
      if chunk = [] then .error .changed
      else readRecord file start size pieceSize reads left (k + 1) (pass.read sha256 pieceSize chunk)
/-- The digests of the pieces; the last one is closed unless it is empty. -/
def PieceHashes.digests (state : PieceHashes Digest) : List Digest :=
  if state.pieceFill = 0 then state.pieces else state.pieces ++ [sha256 state.piece]
/-- A record of a file is hashed. The file is the same when its stamp is afterwards. -/
def hashTask (pieceCommitments : Bool) (record : Record) (before : FileStat) (file : List UInt8) (reads : Nat → Nat)
    (after : String) :
    Except HashError (HashResult Digest) :=
  let start := record.rangeStart.getD 0
  let stop := record.rangeEnd.getD before.size
  let size := stop - start
  let pieceSize := if pieceCommitments then some (commitmentPieceSize size) else none
  if !before.isFile || size < 1 || maxSegment < size || before.size < stop then .error .bounds
  else match readRecord sha256 file start size pieceSize reads size 0 ⟨0,[],⟨[],[],0⟩⟩ with
    | .error error => .error error
    | .ok pass =>
      if before.stamp ≠ after then .error .changed
      else .ok ⟨before.stamp,sha256 pass.hash,size,
        pieceSize.map (fun pieceSize => (pieceSize,pass.pieces.digests sha256))⟩
/-- A result is kept as the newest one, and the oldest ones go. -/
def retain (maxCacheEntries : Nat) (hashes : IndexMap Record (HashResult Digest)) (record : Record)
    (result : HashResult Digest) :
    IndexMap Record (HashResult Digest) :=
  let next := (hashes.erase record).insert record result
  IndexMap.dropFirst^[next.length - maxCacheEntries] next
/-- A record that is hashed: its file as it was found, its reads, and its stamp after them. -/
structure HashTask where
  record : Record
  before : FileStat
  file : List UInt8
  reads : Nat → Nat
  after : String
/-- The results that are kept, the tasks that are running, and what callers hold. -/
structure Hashes (Digest : Type) where
  hashes : IndexMap Record (HashResult Digest)
  pendingHashes : List (Record × String)
  held : List (Record × HashResult Digest)
/-- A caller asks, a task ends, a caller keeps its result again after a later check of the
    file, or the playlists no longer name a record. -/
inductive HashEvent where
  | call (record : Record) (before : FileStat)
  | finish (task : HashTask)
  | again (index : Nat)
  | refresh (authorisedAssets : Record → Bool)
/-- A caller gets the result that is kept for the version of its file. Otherwise it joins
    the task of that version, which it begins if there is none. -/
def hashRecord (maxCacheEntries : Nat) (pieceCommitments : Bool) (s : Hashes Digest) :
    HashEvent → Option (Except HashError (HashResult Digest)) × Hashes Digest
  | .call record before =>
    match (s.hashes.get? record).filter (·.version = before.stamp) with
    | some cached => (some (.ok cached),
      { s with hashes := retain maxCacheEntries s.hashes record cached, held := (record,cached) :: s.held })
    | none =>
      if (record,before.stamp) ∈ s.pendingHashes then (none,s)
      else (none,{ s with pendingHashes := (record,before.stamp) :: s.pendingHashes })
  | .finish task =>
    let rest := s.pendingHashes.erase (task.record,task.before.stamp)
    match hashTask sha256 pieceCommitments task.record task.before task.file task.reads task.after with
    | .error error => (some (.error error),{ s with pendingHashes := rest })
    | .ok result =>
      (some (.ok result),⟨retain maxCacheEntries s.hashes task.record result,rest,(task.record,result) :: s.held⟩)
  | .again index =>
    match s.held[index]? with
    | none => (none,s)
    | some (record,hash) => (none,{ s with hashes := retain maxCacheEntries s.hashes record hash })
  | .refresh authorisedAssets => (none,{ s with hashes := s.hashes.retain (fun key _ => authorisedAssets key) })
/-- The publisher after some events. -/
def hashesAfter (maxCacheEntries : Nat) (pieceCommitments : Bool) (events : List HashEvent) : Hashes Digest :=
  events.foldl (fun s event => (hashRecord sha256 maxCacheEntries pieceCommitments s event).2) ⟨IndexMap.empty,[],[]⟩
end

/-- The bytes of a record in its file, whose size was known before it was read. -/
def Record.bytes (record : Record) (size : Nat) (file : List UInt8) : List UInt8 :=
  (file.drop (record.rangeStart.getD 0)).take (record.rangeEnd.getD size - record.rangeStart.getD 0)
/-- The slices of some bytes, each as long as a piece. -/
def slices (bytes : List UInt8) (count : Nat) : List (List UInt8) :=
  (List.range count).map (fun index => (bytes.drop (index * commitmentPieceSize bytes.length)).take
    (commitmentPieceSize bytes.length))
/-- The digests of the pieces that a verifier takes for some bytes: as many as it counts,
    each of a slice with at least one byte, and all of them together. -/
structure PiecesHashed {Digest : Type} (sha256 : List UInt8 → Digest) (bytes : List UInt8)
    (pieces : List Digest) : Prop where
  count : pieceCount bytes.length = some pieces.length
  ceiled : pieces.length = (bytes.length + commitmentPieceSize bytes.length - 1) / commitmentPieceSize bytes.length
  hashed : pieces = (slices bytes pieces.length).map sha256
  filled : ∀ slice ∈ slices bytes pieces.length, slice ≠ []
  whole : (slices bytes pieces.length).flatten = bytes
structure Hashed {Digest : Type} (sha256 : List UInt8 → Digest) (pieceCommitments : Bool) (bytes : List UInt8)
    (result : HashResult Digest) : Prop where
  size : result.size = bytes.length
  whole : result.sha256 = sha256 bytes
  pieces : pieceCommitments = true → ∃ pieces, result.pieces = some (commitmentPieceSize bytes.length,pieces) ∧
    PiecesHashed sha256 bytes pieces

section
variable {Digest : Type} {sha256 : List UInt8 → Digest} {file : List UInt8} {start size : Nat} {pieceSize : Option Nat}
    {reads : Nat → Nat}

/-- The reads of a record are the bytes from where they began. -/
theorem readRecord_chunks (left : Nat) : ∀ {k : Nat} {pass last : HashPass Digest}, size ≤ pass.offset + left →
    readRecord sha256 file start size pieceSize reads left k pass = .ok last →
    ∃ chunks : List (List UInt8), last.hash = pass.hash ++ chunks.flatten ∧
      (∀ size, pieceSize = some size →
        last.pieces = chunks.foldl (fun state chunk => feedPieces sha256 size chunk.length state chunk) pass.pieces) ∧
      chunks.flatten = (file.drop (start + pass.offset)).take (size - pass.offset) ∧
      size ≤ pass.offset + chunks.flatten.length := by
  induction left with
  | zero =>
    intro k pass last covers read
    cases read
    refine ⟨[],(List.append_nil _).symm,fun _ _ => rfl,?_,covers⟩
    rw [show size - pass.offset = 0 by omega,List.take_zero]
    rfl
  | succ left ih =>
    intro k pass last covers read
    unfold readRecord at read
    by_cases done' : size ≤ pass.offset
    · rw [if_pos done'] at read
      cases read
      refine ⟨[],(List.append_nil _).symm,fun _ _ => rfl,?_,done'⟩
      rw [show size - pass.offset = 0 by omega,List.take_zero]
      rfl
    · rw [if_neg done'] at read
      generalize same : readAt file (start + pass.offset) (min (min size maxReadBytes) (size - pass.offset)) (reads k) =
        chunk at read
      dsimp only at read
      split at read
      · cases read
      · rename_i some
        have filled : 0 < chunk.length := List.length_pos_of_ne_nil some
        have enough : size ≤ (pass.read sha256 pieceSize chunk).offset + left := by
          change size ≤ pass.offset + chunk.length + left
          omega
        obtain ⟨chunks,whole,pieces,rest,reached⟩ := ih enough read
        refine ⟨chunk :: chunks,?_,fun size piece => ?_,?_,?_⟩
        · rw [whole,List.flatten_cons]
          exact List.append_assoc ..
        · rw [pieces size piece,List.foldl_cons]
          unfold HashPass.read
          rw [piece]
          rfl
        · have rest : chunks.flatten = (file.drop (start + (pass.offset + chunk.length))).take
              (size - (pass.offset + chunk.length)) := rest
          have own : chunk = (file.drop (start + pass.offset)).take chunk.length := by
            rw [← same]
            exact List.prefix_iff_eq_take.mp (List.take_prefix _ _)
          have inside : chunk.length ≤ size - pass.offset := by
            rw [← same]
            unfold readAt
            rw [List.length_take]
            omega
          calc (chunk :: chunks).flatten
            _ = chunk ++ chunks.flatten := List.flatten_cons
            _ = (file.drop (start + pass.offset)).take chunk.length ++
                ((file.drop (start + pass.offset)).drop chunk.length).take (size - pass.offset - chunk.length) := by
              rw [rest,List.drop_drop,Nat.add_assoc,Nat.sub_add_eq]
              exact congrArg (· ++ _) own
            _ = (file.drop (start + pass.offset)).take (size - pass.offset) := by
              rw [← List.take_add,Nat.add_sub_cancel' inside]
        · have reached : size ≤ pass.offset + chunk.length + chunks.flatten.length := reached
          rw [List.flatten_cons,List.length_append]
          omega
theorem readRecord_total (given : ∀ k, 0 < reads k) (inside : start + size ≤ file.length) (left : Nat) :
    ∀ (k : Nat) (pass : HashPass Digest),
    ∃ last, readRecord sha256 file start size pieceSize reads left k pass = .ok last := by
  induction left with
  | zero => exact fun k pass => ⟨pass,rfl⟩
  | succ left ih =>
    intro k pass
    unfold readRecord
    by_cases done' : size ≤ pass.offset
    · exact ⟨pass,if_pos done'⟩
    · rw [if_neg done']
      have some : readAt file (start + pass.offset) (min (min size maxReadBytes) (size - pass.offset)) (reads k) ≠
          [] := by
        have one := given k
        have large : 0 < maxReadBytes := by decide
        refine List.ne_nil_of_length_pos ?_
        unfold readAt
        rw [List.length_take,List.length_drop]
        omega
      dsimp only
      rw [if_neg some]
      exact ih _ _

/-! ### Slices -/

variable {bytes : List UInt8} {count : Nat}

theorem slice_piece (index : Nat) :
    (bytes.drop (index * commitmentPieceSize bytes.length)).take (commitmentPieceSize bytes.length) =
    pieceOf bytes.length (commitmentPieceSize bytes.length) index bytes := by
  unfold pieceOf
  generalize commitmentPieceSize bytes.length = size
  have length : ((bytes.drop (index * size)).take size).length = pieceBytes bytes.length size index := by
    unfold pieceBytes
    rw [List.length_take,List.length_drop]
    omega
  rw [← length]
  exact List.prefix_iff_eq_take.mp (List.take_prefix _ _)
theorem slices_pieces : slices bytes count = (List.range count).map (fun index =>
    pieceOf bytes.length (commitmentPieceSize bytes.length) index bytes) :=
  List.map_congr_left (fun index _ => slice_piece index)
theorem slices_hashed (counted : pieceCount bytes.length = some count) :
    PiecesHashed sha256 bytes ((slices bytes count).map sha256) := by
  have length : ((slices bytes count).map sha256).length = count := by simp [slices]
  have tiles := pieces_tile counted
  refine ⟨by rw [length]; exact counted,?_,by rw [length],?_,?_⟩
  · rw [length]
    unfold pieceCount at counted
    split at counted
    · cases counted
    · exact (Option.some.inj counted).symm
  · rw [length,slices_pieces]
    intro slice member
    obtain ⟨index,below,rfl⟩ := List.mem_map.mp member
    have filled := tiles.filled index (List.mem_range.mp below)
    refine List.ne_nil_of_length_pos ?_
    rw [← slice_piece,List.length_take,List.length_drop]
    unfold pieceBytes at filled
    omega
  · rw [length,slices_pieces]
    have flat := pieceOf_flatten counted rfl count (Nat.zero_le count) le_rfl
    have covers := (pieceCount_covers counted).1
    have indices : (⟨0,count⟩ : PieceRange).indices = List.range count := by
      simp [PieceRange.indices,List.range_eq_range']
    rw [indices,Nat.zero_mul,List.drop_zero,min_eq_right covers,List.take_length] at flat
    exact flat

/-! ### Records -/

variable {pieceCommitments : Bool} {record : Record} {before : FileStat} {after : String} {result : HashResult Digest}

theorem segment_counted {size : Nat} (filled : 1 ≤ size) (few : size ≤ maxSegment) :
    ∃ count, pieceCount size = some count := by
  unfold pieceCount maxSize
  unfold maxSegment at few
  rw [if_neg (by omega)]
  exact ⟨_,rfl⟩
theorem hashTask_hashed (hashed : hashTask sha256 pieceCommitments record before file reads after = .ok result) :
    Hashed sha256 pieceCommitments (record.bytes before.size file) result ∧ result.version = before.stamp := by
  unfold hashTask at hashed
  dsimp only at hashed
  split at hashed
  · cases hashed
  · rename_i allowed
    simp only [Bool.or_eq_true,decide_eq_true_eq,not_or,Nat.not_lt] at allowed
    obtain ⟨⟨⟨_,filled⟩,few⟩,_⟩ := allowed
    generalize length : record.rangeEnd.getD before.size - record.rangeStart.getD 0 = size at hashed filled few
    split at hashed
    · cases hashed
    · rename_i pass read
      split at hashed
      · cases hashed
      · cases hashed
        obtain ⟨chunks,whole,pieces,flat,reached⟩ := readRecord_chunks size (by dsimp only; omega) read
        have bytes : record.bytes before.size file = chunks.flatten := by
          unfold Record.bytes
          rw [length,flat]
          rfl
        have long : chunks.flatten.length = size := by
          have least : size ≤ 0 + chunks.flatten.length := reached
          have most := congrArg List.length flat
          rw [List.length_take] at most
          omega
        rw [bytes]
        refine ⟨⟨long.symm,congrArg sha256 whole,fun wanted => ?_⟩,rfl⟩
        obtain ⟨count,counted⟩ := segment_counted filled few
        rw [← long] at counted
        have digests : pass.pieces.digests sha256 = (slices chunks.flatten count).map sha256 := by
          rw [pieces (commitmentPieceSize size) (if_pos wanted),← long,slices_pieces,List.map_map]
          exact hashPieces_pieces sha256 counted rfl chunks rfl
        refine ⟨_,?_,slices_hashed counted⟩
        rw [if_pos wanted,← digests,← long]
        rfl
theorem hashTask_total (isFile : before.isFile = true) (length : before.size = file.length)
    (filled : 1 ≤ record.rangeEnd.getD before.size - record.rangeStart.getD 0)
    (few : record.rangeEnd.getD before.size - record.rangeStart.getD 0 ≤ maxSegment)
    (inside : record.rangeEnd.getD before.size ≤ before.size) (given : ∀ k, 0 < reads k) (same : after = before.stamp) :
    ∃ result, hashTask sha256 pieceCommitments record before file reads after = .ok result := by
  unfold hashTask
  dsimp only
  rw [if_neg (by
    simp only [Bool.or_eq_true,decide_eq_true_eq,not_or,Nat.not_lt,isFile]
    exact ⟨⟨⟨by decide,filled⟩,few⟩,inside⟩)]
  obtain ⟨last,read⟩ : ∃ last, readRecord sha256 file (record.rangeStart.getD 0)
    (record.rangeEnd.getD before.size - record.rangeStart.getD 0)
      (if pieceCommitments then some (commitmentPieceSize (record.rangeEnd.getD before.size - record.rangeStart.getD 0))
        else none)
      reads (record.rangeEnd.getD before.size - record.rangeStart.getD 0) 0 ⟨0,[],⟨[],[],0⟩⟩ = .ok last :=
    readRecord_total given (by omega) _ 0 _
  rw [read]
  dsimp only
  rw [if_neg (not_not.mpr same.symm)]
  exact ⟨_,rfl⟩

/-! ### Results that are kept -/

variable {maxCacheEntries : Nat} {s : Hashes Digest} {past : List HashEvent} {event : HashEvent}

/-- A task among these events read the bytes of a result. -/
def Earned (sha256 : List UInt8 → Digest) (pieceCommitments : Bool) (past : List HashEvent) (record : Record)
    (result : HashResult Digest) : Prop :=
  ∃ task, HashEvent.finish task ∈ past ∧ task.record = record ∧ task.before.stamp = result.version ∧
    Hashed sha256 pieceCommitments (record.bytes task.before.size task.file) result
/-- All that is kept or held was read by a task. -/
structure Hashes.Earned (sha256 : List UInt8 → Digest) (pieceCommitments : Bool) (past : List HashEvent)
    (s : Hashes Digest) : Prop where
  kept : ∀ record result, s.hashes.get? record = some result → Pieces.Earned sha256 pieceCommitments past record result
  held : ∀ entry ∈ s.held, Pieces.Earned sha256 pieceCommitments past entry.1 entry.2

theorem Earned.later (earned : Earned sha256 pieceCommitments past record result) :
    Earned sha256 pieceCommitments (past ++ [event]) record result := by
  obtain ⟨task,member,rest⟩ := earned
  exact ⟨task,List.mem_append_left _ member,rest⟩
theorem Hashes.Earned.later (earned : s.Earned sha256 pieceCommitments past) :
    s.Earned sha256 pieceCommitments (past ++ [event]) :=
  ⟨fun record result kept => (earned.kept record result kept).later,
    fun entry member => (earned.held entry member).later⟩
theorem get?_dropFirst_iterate {hashes : IndexMap Record (HashResult Digest)} (times : Nat) : 
    (IndexMap.dropFirst^[times] hashes).get? record = some result → hashes.get? record = some result := by
  induction times generalizing hashes with
  | zero => exact id
  | succ times ih =>
    intro kept
    rw [Function.iterate_succ_apply] at kept
    exact IndexMap.get?_dropFirst (ih kept)
theorem get?_retain_cases {hashes : IndexMap Record (HashResult Digest)} {key : Record} {value : HashResult Digest}
    (kept : (retain maxCacheEntries hashes key value).get? record = some result) :
    record = key ∧ result = value ∨ hashes.get? record = some result := by
  have written := get?_dropFirst_iterate _ kept
  rw [IndexMap.get?_insert] at written
  split at written
  · rename_i same
    exact .inl ⟨same,(Option.some.inj written).symm⟩
  · exact .inr (IndexMap.get?_retain.mp written).1
theorem retain_earned {key : Record} {value : HashResult Digest} (earned : s.Earned sha256 pieceCommitments past)
    (own : Earned sha256 pieceCommitments past key value) :
    ∀ record result, (retain maxCacheEntries s.hashes key value).get? record = some result →
      Earned sha256 pieceCommitments past record result := by
  intro record result kept
  rcases get?_retain_cases kept with ⟨rfl,rfl⟩ | before
  · exact own
  · exact earned.kept _ _ before
theorem hashRecord_earned (earned : s.Earned sha256 pieceCommitments past) :
    (hashRecord sha256 maxCacheEntries pieceCommitments s event).2.Earned sha256 pieceCommitments (past ++ [event]) ∧
    ∀ record before result, event = .call record before →
      (hashRecord sha256 maxCacheEntries pieceCommitments s event).1 = some (.ok result) →
      result.version = before.stamp ∧ Earned sha256 pieceCommitments past record result := by
  have later : s.Earned sha256 pieceCommitments (past ++ [event]) := earned.later
  cases event with
  | call record before =>
    dsimp only [hashRecord]
    split
    · rename_i cached found
      obtain ⟨kept,version⟩ := Option.filter_eq_some_iff.mp found
      have own := earned.kept _ _ kept
      refine ⟨⟨retain_earned later own.later,?_⟩,?_⟩
      · intro entry member
        rcases List.mem_cons.mp member with rfl | old
        · exact own.later
        · exact later.held _ old
      · intro other found result same answered
        cases same
        cases answered
        exact ⟨of_decide_eq_true version,own⟩
    · split
      · exact ⟨later,fun _ _ _ _ answered => nomatch answered⟩
      · exact ⟨⟨later.kept,later.held⟩,fun _ _ _ _ answered => nomatch answered⟩
  | finish task =>
    refine ⟨?_,fun _ _ _ other => nomatch other⟩
    dsimp only [hashRecord]
    split
    · exact ⟨later.kept,later.held⟩
    · rename_i result done
      obtain ⟨hashed,version⟩ := hashTask_hashed done
      have own : Earned sha256 pieceCommitments (past ++ [.finish task]) task.record result :=
        ⟨task,List.mem_append_right _ (List.mem_singleton_self _),rfl,version.symm,hashed⟩
      refine ⟨retain_earned later own,?_⟩
      intro entry member
      rcases List.mem_cons.mp member with rfl | old
      · exact own
      · exact later.held _ old
  | again index =>
    refine ⟨?_,fun _ _ _ other => nomatch other⟩
    dsimp only [hashRecord]
    split
    · exact later
    · rename_i record hash found
      exact ⟨retain_earned later (later.held _ (List.mem_of_getElem? found)),later.held⟩
  | refresh authorisedAssets =>
    refine ⟨?_,fun _ _ _ other => nomatch other⟩
    exact ⟨fun record result kept => later.kept _ _ (IndexMap.get?_retain.mp kept).1,later.held⟩
theorem hashesAfter_earned (events : List HashEvent) :
    (hashesAfter sha256 maxCacheEntries pieceCommitments events).Earned sha256 pieceCommitments events := by
  induction events using List.reverseRecOn with
  | nil => exact ⟨fun _ _ kept => (nomatch kept),fun _ member => (nomatch member)⟩
  | append_singleton events event ih =>
    unfold hashesAfter at ih ⊢
    rw [List.foldl_append]
    exact (hashRecord_earned ih).1
end

/-- A record that is hashed, with reads of any lengths, has the digest of its bytes and
    those of their slices. It is hashed when every read has a byte and the file stays the
    same. A result that is kept is one of a task that read that version of the file. -/
theorem record_hashed {Digest : Type} (sha256 : List UInt8 → Digest) (pieceCommitments : Bool) :
    (∀ (task : HashTask) (result : HashResult Digest),
      hashTask sha256 pieceCommitments task.record task.before task.file task.reads task.after = .ok result →
      Hashed sha256 pieceCommitments (task.record.bytes task.before.size task.file) result) ∧
    (∀ task : HashTask, task.before.isFile = true → task.before.size = task.file.length →
      1 ≤ (task.record.bytes task.before.size task.file).length →
      (task.record.bytes task.before.size task.file).length ≤ maxSegment →
      task.record.rangeEnd.getD task.before.size ≤ task.file.length → (∀ k, 0 < task.reads k) →
        task.after = task.before.stamp →
      ∃ result, hashTask sha256 pieceCommitments task.record task.before task.file task.reads task.after = .ok result) ∧
    ∀ (maxCacheEntries : Nat) (past : List HashEvent) (record : Record) (before : FileStat)
      (result : HashResult Digest),
      (hashRecord sha256 maxCacheEntries pieceCommitments (hashesAfter sha256 maxCacheEntries pieceCommitments past)
        (.call record before)).1 = some (.ok result) →
      ∃ task, HashEvent.finish task ∈ past ∧ task.record = record ∧ task.before.stamp = before.stamp ∧
        Hashed sha256 pieceCommitments (record.bytes task.before.size task.file) result := by
  refine ⟨fun task result hashed => (hashTask_hashed hashed).1,?_,?_⟩
  · intro task isFile length filled few inside given same
    have bytes : (task.record.bytes task.before.size task.file).length =
        task.record.rangeEnd.getD task.before.size - task.record.rangeStart.getD 0 := by
      unfold Record.bytes
      rw [List.length_take,List.length_drop]
      omega
    rw [bytes] at filled few
    exact hashTask_total isFile length filled few (by omega) given same
  · intro maxCacheEntries past record before result answered
    obtain ⟨version,task,member,own,stamp,hashed⟩ :=
      (hashRecord_earned (hashesAfter_earned past)).2 record before result rfl answered
    exact ⟨task,member,own,stamp.trans version,hashed⟩

end RelaySwarm.Pieces
