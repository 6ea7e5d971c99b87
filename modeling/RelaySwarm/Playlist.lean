import RelaySwarm.Script

/-!
Media playlists as text: the lines of one, what a player reads from it, the position
the pipeline reads back from a published one, and the published form of what an
encoder wrote (`bodyOf`). What an encoder may write is `Encoded`.
-/
namespace RelaySwarm.Playlist
open Script

/-- Text or a line of it, as characters. -/
abbrev Text := List Char
def lit (text : String) : Text := text.toList
def lines (text : Text) : List Text := text.splitOn '\n'
def joined (rows : List Text) : Text := ['\n'].intercalate rows
/-- What ends a line for a regular expression with the `m` flag. -/
def isTerminator (c : Char) : Bool := c = '\n' || c = '\r' || c = '\u2028' || c = '\u2029'
def matched (text : Text) : List Text := text.splitOnP isTerminator
def size (text : Text) : Nat := (text.map Char.utf8Size).sum
def includes (word : Text) : Text → Bool
  | [] => word.isEmpty
  | c :: rest => word.isPrefixOf (c :: rest) || includes word rest

/-! ### Tags -/

def mediaTag : Text := lit "#EXT-X-MEDIA-SEQUENCE"
def discontinuityTag : Text := lit "#EXT-X-DISCONTINUITY-SEQUENCE"
def durationTag : Text := lit "#EXTINF:"
def digits (n : Nat) : Text := Nat.toDigits 10 n
/-- `(\d+)` to the end of the line. -/
def number (text : Text) : Option Nat :=
  if text.isEmpty || !text.all Char.isDigit then none else some (Nat.ofDigitChars 10 text 0)
def tagged (tag : Text) (rows : List Text) : List Text := rows.filter tag.isPrefixOf
def tagLine (tag : Text) (n : Nat) : Text := tag ++ ':' :: digits n
def tagNumber (tag row : Text) : Option Nat :=
  if (tag ++ [':']).isPrefixOf row then number (row.drop (tag.length + 1)) else none

def sequenceOf (tag text : Text) : Nat := ((tagged tag (lines text)).head?.bind (tagNumber tag)).getD 0
def mediaSequence (text : Text) : Nat := sequenceOf mediaTag text
def discontinuitySequence (text : Text) : Nat := sequenceOf discontinuityTag text
def isComment (row : Text) : Bool := row.isEmpty || row.head? = some '#'
def uris (text : Text) : List Text := (lines text).filter (fun row => !isComment row)
/-- A player takes the segment at this address for this media sequence number. -/
def Lists (text : Text) (n : Nat) (uri : Text) : Prop :=
  ∃ i : Nat, (uris text)[i]? = some uri ∧ n = mediaSequence text + i

def generationOf (uri : Text) : Text := (uri.drop 3).takeWhile (· ≠ '/')
/-- One content of a published playlist, and one that comes after it. -/
structure Follows (a b : Text) : Prop where
  number : ∀ n u v, Lists a n u → Lists b n v → u = v
  sequence : mediaSequence a ≤ mediaSequence b
  discontinuity : discontinuitySequence a ≤ discontinuitySequence b
  raised : ∀ u ∈ uris a, ∀ v ∈ uris b, generationOf u ≠ generationOf v →
    discontinuitySequence a < discontinuitySequence b

/-! ### The position of a published playlist -/

structure Position where
  nextSequence : Nat
  nextDiscontinuity : Nat
deriving DecidableEq
def Position.start : Position := ⟨0,0⟩
def Position.max (a b : Position) : Position :=
  ⟨Nat.max a.nextSequence b.nextSequence,Nat.max a.nextDiscontinuity b.nextDiscontinuity⟩
def isSafe (n : Nat) : Bool := isSafeInteger n
/-- The position after a published playlist; none when it is invalid. -/
def positionOf (body : Text) : Option Position :=
  let sequences := tagged mediaTag (matched body)
  let discontinuities := tagged discontinuityTag (matched body)
  let segments := (tagged durationTag (matched body)).length
  match sequences,discontinuities.map (tagNumber discontinuityTag) with
  | [sequence],discontinuities =>
    match tagNumber mediaTag sequence,(if discontinuities = [] then [some 0] else discontinuities) with
    | some start,[some cc] =>
      if (lit "#EXTM3U\n").isPrefixOf body && segments ≠
        0 && isSafe start && isSafe (start + segments) && isSafe (cc + 1) then
        some ⟨start + segments,cc + 1⟩
      else none
    | _,_ => none
  | _,_ => none

/-! ### Publishing -/

def maxPlaylistUnits : Nat := 256 * 1024
/-- `segment-\d+\.ts`, the whole of it. -/
def isSegmentName (row : Text) : Bool :=
  (lit "segment-").isPrefixOf row && (lit ".ts").isSuffixOf row &&
    (number ((row.drop 8).take (row.length - 11))).isSome
/-- A playlist the pipeline publishes; another one is read again later. -/
def publishable (raw : Text) : Bool :=
  unitsOf raw ≤ maxPlaylistUnits && (lit "#EXTM3U\n").isPrefixOf raw && includes durationTag raw
def address (entry level row : Text) : Text := lit "../" ++ entry ++ '/' :: level ++ '/' :: row
def addressed (entry level row : Text) : Text := if isComment row then row else address entry level row
/-- The lines with the discontinuity sequence after the first two. -/
def spliced (discontinuity : Nat) (rows : List Text) : List Text :=
  rows.take 2 ++ tagLine discontinuityTag discontinuity :: rows.drop 2
/-- The published form of an encoder's playlist; none when it names a segment another way. -/
def bodyOf (entry level : Text) (discontinuity : Nat) (raw : Text) : Option Text :=
  if (lines raw).all (fun row => isComment row || isSegmentName row) then
    some (joined (spliced discontinuity ((lines raw).map (addressed entry level))))
  else none

/-! ### What an encoder writes -/

/-- `segment-%019d.ts` -/
def segmentName (n : Nat) : Text :=
  lit "segment-" ++ List.replicate (19 - (digits n).length) '0' ++ digits n ++ lit ".ts"
/-- The playlist lists consecutive segments from the first one on, each after its
    duration, and leaves discontinuities to the pipeline. -/
structure Encoded (raw : Text) (first count : Nat) : Prop where
  plain : ∀ c ∈ raw, isTerminator c = true → c = '\n'
  sequence : tagged mediaTag (lines raw) = [tagLine mediaTag first]
  continuous : tagged discontinuityTag (lines raw) = []
  durations : (tagged durationTag (lines raw)).length = count
  segments : uris raw = (List.range' first count).map segmentName
instance (raw : Text) (first count : Nat) : Decidable (Encoded raw first count) :=
  decidable_of_iff (raw.all (fun c => !isTerminator c || c = '\n') = true ∧
    tagged mediaTag (lines raw) = [tagLine mediaTag first] ∧
      tagged discontinuityTag (lines raw) = [] ∧ (tagged durationTag (lines raw)).length = count ∧
      uris raw = (List.range' first count).map segmentName)
    ⟨fun ⟨a,b,c,d,e⟩ => ⟨by simpa [or_iff_not_imp_left] using a,b,c,d,e⟩,
      fun ⟨a,b,c,d,e⟩ => ⟨by simpa [or_iff_not_imp_left] using a,b,c,d,e⟩⟩

/-! ### Lines and tags -/

theorem splitOn_mem {text row : Text} {sep : Char} (member : row ∈ text.splitOn sep) :
    ∀ c ∈ row, c ∈ text ∧ c ≠ sep := by
  induction text generalizing row with
  | nil =>
    rw [List.splitOn_nil,List.mem_singleton] at member
    subst member
    simp
  | cons head rest ih =>
    rw [List.splitOn_cons_eq_if_modifyHead] at member
    split at member
    · rcases List.mem_cons.mp member with rfl | later
      · simp
      · exact fun c inside => ⟨List.mem_cons_of_mem _ (ih later c inside).1,(ih later c inside).2⟩
    · rename_i other
      cases rows : rest.splitOn sep with
      | nil => exact absurd rows (List.splitOn_ne_nil _ _)
      | cons first later =>
        rw [rows,List.modifyHead_cons] at member
        rw [rows] at ih
        intro c inside
        rcases List.mem_cons.mp member with rfl | below
        · rcases List.mem_cons.mp inside with rfl | inside
          · exact ⟨List.mem_cons_self,by simpa using other⟩
          · have known := ih List.mem_cons_self c inside
            exact ⟨List.mem_cons_of_mem _ known.1,known.2⟩
        · have known := ih (List.mem_cons_of_mem _ below) c inside
          exact ⟨List.mem_cons_of_mem _ known.1,known.2⟩
theorem joined_mem {rows : List Text} {c : Char} (member : c ∈ joined rows) : c = '\n' ∨ ∃ row ∈ rows, c ∈ row := by
  unfold joined at member
  induction rows with
  | nil => simp at member
  | cons row rest ih =>
    cases rest with
    | nil =>
      rw [List.intercalate_singleton] at member
      exact .inr ⟨row,List.mem_cons_self,member⟩
    | cons next rest =>
      rw [List.intercalate_cons_cons,List.mem_append,List.mem_append,List.mem_singleton] at member
      rcases member with inside | later
      · rcases inside with inside | newline
        · exact .inr ⟨row,List.mem_cons_self,inside⟩
        · exact .inl newline
      · rcases ih later with newline | ⟨row',known,inside⟩
        · exact .inl newline
        · exact .inr ⟨row',List.mem_cons_of_mem _ known,inside⟩
theorem lines_joined {rows : List Text} (some : rows ≠ []) (plain : ∀ row ∈ rows, '\n' ∉ row) :
    lines (joined rows) = rows :=
  List.splitOn_intercalate '\n' plain some
theorem matched_lines {text : Text} (plain : ∀ c ∈ text, isTerminator c = true → c = '\n') :
    matched text = lines text := by
  unfold matched lines
  rw [List.splitOn_eq_splitOnP]
  induction text with
  | nil => rfl
  | cons c rest ih =>
    have same : isTerminator c = (c == '\n') := by
      cases ends : isTerminator c with
      | true => rw [plain c List.mem_cons_self ends]; rfl
      | false =>
        cases feed : c == '\n' with
        | false => rfl
        | true =>
          rw [beq_iff_eq] at feed
          rw [feed] at ends
          cases ends
    rw [List.splitOnP_cons_eq_if_modifyHead,List.splitOnP_cons_eq_if_modifyHead,same,
      ih (fun c inside => plain c (List.mem_cons_of_mem _ inside))]

theorem digits_digit {n : Nat} {c : Char} (member : c ∈ digits n) : c.isDigit = true :=
  Nat.isDigit_of_mem_toDigits (by decide) (by decide) member
theorem digit_named {c : Char} (digit : c.isDigit = true) : isTerminator c = false ∧ c ≠ '/' := by
  constructor
  · cases ends : isTerminator c with
    | false => rfl
    | true =>
      simp only [isTerminator,Bool.or_eq_true,decide_eq_true_eq] at ends
      rcases ends with ((rfl | rfl) | rfl) | rfl <;> simp at digit
  · rintro rfl
    simp at digit
theorem number_digits (n : Nat) : number (digits n) = some n := by
  have filled : (digits n).isEmpty = false := by
    cases empty : digits n with
    | nil => exact absurd empty Nat.toDigits_ne_nil
    | cons c rest => rfl
  have all : (digits n).all Char.isDigit = true := List.all_eq_true.mpr (fun c member => digits_digit member)
  unfold number
  rw [filled,all]
  exact congrArg some Nat.ofDigitChars_ten_toDigits
theorem tagNumber_tagLine (tag : Text) (n : Nat) : tagNumber tag (tagLine tag n) = some n := by
  have shape : tagLine tag n = (tag ++ [':']) ++ digits n := by simp [tagLine]
  have rest : (tagLine tag n).drop (tag.length + 1) = digits n := by
    rw [shape,List.drop_append_of_le_length (by simp)]
    simp
  unfold tagNumber
  rw [rest,number_digits,if_pos]
  rw [shape]
  exact List.isPrefixOf_iff_prefix.mpr (List.prefix_append _ _)

@[simp] theorem tagged_append (tag : Text) (a b : List Text) : tagged tag (a ++ b) = tagged tag a ++ tagged tag b :=
  List.filter_append ..
theorem tagged_comment {tag row : Text} (starts : tag.head? = some '#') (found : tag.isPrefixOf row = true) :
    isComment row = true := by
  cases tag with
  | nil => cases starts
  | cons c rest =>
    cases row with
    | nil => cases found
    | cons c' rest' =>
      rw [List.head?_cons,Option.some.injEq] at starts
      rw [List.isPrefixOf_cons_cons,Bool.and_eq_true,beq_iff_eq] at found
      rw [starts] at found
      unfold isComment
      rw [List.head?_cons,← found.1]
      rfl
theorem tagged_addressed {tag : Text} (starts : tag.head? = some '#') (entry level : Text) (rows : List Text) :
    tagged tag (rows.map (addressed entry level)) = tagged tag rows := by
  induction rows with
  | nil => rfl
  | cons row rest ih =>
    unfold tagged at ih ⊢
    rw [List.map_cons,List.filter_cons,List.filter_cons,ih]
    unfold addressed
    cases comment : isComment row with
    | true => rfl
    | false =>
      have plain : tag.isPrefixOf row = false :=
        Bool.eq_false_iff.mpr (fun found => Bool.false_ne_true (comment.symm.trans (tagged_comment starts found)))
      have other : tag.isPrefixOf (address entry level row) = false := by
        refine Bool.eq_false_iff.mpr (fun found => ?_)
        have wrong : isComment (address entry level row) = false := rfl
        rw [tagged_comment starts found] at wrong
        cases wrong
      rw [if_neg Bool.false_ne_true,plain,other]
      rfl
theorem uris_addressed (entry level : Text) (rows : List Text) :
    (rows.map (addressed entry level)).filter (fun row => !isComment row) =
      (rows.filter (fun row => !isComment row)).map (address entry level) := by
  induction rows with
  | nil => rfl
  | cons row rest ih =>
    rw [List.map_cons,List.filter_cons,List.filter_cons,ih]
    unfold addressed
    cases comment : isComment row with
    | true =>
      rw [if_pos rfl,comment]
      rfl
    | false => rfl

/-! ### The published form -/

/-- A name stands in an address as it is. -/
def Named (entry : Text) : Prop := ∀ c ∈ entry, isTerminator c = false ∧ c ≠ '/'
/-- What a player and the pipeline read from a published playlist. -/
structure Publishes (body entry level : Text) (d first count : Nat) : Prop where
  sequence : mediaSequence body = first
  discontinuity : discontinuitySequence body = d
  segments : uris body = (List.range' first count).map (fun n => address entry level (segmentName n))
  position : ∀ p, positionOf body = some p → p = ⟨first + count,d + 1⟩

theorem all_plain {text : Text} (all : text.all (fun c => !isTerminator c) = true) :
    ∀ c ∈ text, isTerminator c = false :=
  fun c inside => Bool.not_eq_true' _ |>.mp (List.all_eq_true.mp all c inside)
theorem named_all {text : Text} (all : text.all (fun c => !isTerminator c && c != '/') = true) : Named text := by
  intro c inside
  have both := List.all_eq_true.mp all c inside
  rw [Bool.and_eq_true,Bool.not_eq_true',bne_iff_ne] at both
  exact both
theorem tagLine_plain (tag : Text) (n : Nat) (plain : ∀ c ∈ tag, isTerminator c = false) :
    ∀ c ∈ tagLine tag n, isTerminator c = false := by
  intro c inside
  rcases List.mem_append.mp inside with inside | inside
  · exact plain c inside
  · rcases List.mem_cons.mp inside with rfl | inside
    · rfl
    · exact (digit_named (digits_digit inside)).1
theorem spliced_plain {entry level raw : Text} (named : Named entry) (leveled : Named level) (d : Nat)
    (plain : ∀ c ∈ raw, isTerminator c = true → c = '\n') :
    ∀ row ∈ spliced d ((lines raw).map (addressed entry level)), ∀ c ∈ row, isTerminator c = false := by
  have known : ∀ row ∈ (lines raw).map (addressed entry level), ∀ c ∈ row, isTerminator c = false := by
    intro row member c inside
    obtain ⟨own,line,rfl⟩ := List.mem_map.mp member
    have clear : ∀ c ∈ own, isTerminator c = false := fun c inside =>
      Bool.eq_false_iff.mpr (fun ends => (splitOn_mem line c inside).2 (plain c (splitOn_mem line c inside).1 ends))
    unfold addressed at inside
    split at inside
    · exact clear c inside
    · simp only [address,List.mem_append,List.mem_cons] at inside
      rcases inside with ((dots | inside) | rfl | inside) | rfl | inside
      · exact all_plain (by decide) c dots
      · exact (named c inside).1
      · rfl
      · exact (leveled c inside).1
      · rfl
      · exact clear c inside
  intro row member
  rcases List.mem_append.mp member with early | later
  · exact known row (List.mem_of_mem_take early)
  · rcases List.mem_cons.mp later with rfl | later
    · exact tagLine_plain _ _ (all_plain (by decide))
    · exact known row (List.mem_of_mem_drop later)
theorem tagged_spliced (tag : Text) (d : Nat) (rows : List Text) :
    tagged tag (spliced d rows) = tagged tag (rows.take 2) ++
      (tagged tag [tagLine discontinuityTag d] ++ tagged tag (rows.drop 2)) := by
  unfold spliced
  rw [tagged_append,← List.singleton_append,tagged_append]
theorem tagged_other {tag : Text} {d : Nat} (other : tagged tag [tagLine discontinuityTag d] = []) (rows : List Text) :
    tagged tag (spliced d rows) = tagged tag rows := by
  rw [tagged_spliced,other,List.nil_append,← tagged_append,List.take_append_drop]

theorem bodyOf_publishes {entry level raw body : Text} {d first count : Nat} (named : Named entry)
    (leveled : Named level) (encoded : Encoded raw first count) (made : bodyOf entry level d raw = some body) :
    Publishes body entry level d first count := by
  unfold bodyOf at made
  split at made
  · have shape := Option.some.inj made
    have plain := spliced_plain named leveled d encoded.plain
    have feeds : ∀ row ∈ spliced d ((lines raw).map (addressed entry level)), '\n' ∉ row := by
      intro row member inside
      exact Bool.false_ne_true ((plain row member _ inside).symm)
    have rows : lines body = spliced d ((lines raw).map (addressed entry level)) := by
      rw [← shape]
      refine lines_joined (fun empty => ?_) feeds
      simp [spliced] at empty
    have tidy : matched body = lines body := by
      refine matched_lines (fun c inside ends => ?_)
      rw [← shape] at inside
      rcases joined_mem inside with feed | ⟨row,member,inside⟩
      · exact feed
      · rw [plain row member c inside] at ends
        cases ends
    have media : tagged mediaTag (lines body) = [tagLine mediaTag first] := by
      rw [rows,tagged_other rfl,tagged_addressed rfl,encoded.sequence]
    have durations : (tagged durationTag (lines body)).length = count := by
      rw [rows,tagged_other rfl,tagged_addressed rfl,encoded.durations]
    have discontinuity : tagged discontinuityTag (lines body) = [tagLine discontinuityTag d] := by
      have none : tagged discontinuityTag ((lines raw).map (addressed entry level)) = [] := by
        rw [tagged_addressed rfl,encoded.continuous]
      have parts := none
      rw [← List.take_append_drop 2 ((lines raw).map (addressed entry level)),tagged_append,List.append_eq_nil_iff]
        at parts
      rw [rows,tagged_spliced,parts.1,parts.2]
      rfl
    constructor
    · unfold mediaSequence sequenceOf
      rw [media,List.head?_cons,Option.bind_some,tagNumber_tagLine]
      rfl
    · unfold discontinuitySequence sequenceOf
      rw [discontinuity,List.head?_cons,Option.bind_some,tagNumber_tagLine]
      rfl
    · have rest : uris body = ((lines raw).map (addressed entry level)).filter (fun row => !isComment row) := by
        have split : (lines raw).map (addressed entry level) =
            ((lines raw).map (addressed entry level)).take 2 ++ ((lines raw).map (addressed entry level)).drop 2 :=
          (List.take_append_drop 2 _).symm
        unfold uris
        rw [rows]
        conv_rhs => rw [split,List.filter_append]
        unfold spliced
        rw [List.filter_append]
        rfl
      have own : (lines raw).filter (fun row => !isComment row) = (List.range' first count).map segmentName :=
        encoded.segments
      rw [rest,uris_addressed,own,List.map_map]
      rfl
    · intro p read
      unfold positionOf at read
      rw [tidy,media,discontinuity,durations] at read
      dsimp only at read
      rw [List.map_singleton,tagNumber_tagLine,tagNumber_tagLine,if_neg (List.cons_ne_nil _ _)] at read
      dsimp only at read
      split at read
      · exact (Option.some.inj read).symm
      · cases read
  · cases made
theorem Publishes.lists {body entry level : Text} {d first count : Nat}
    (shown : Publishes body entry level d first count)
    {n : Nat} {uri : Text} (lists : Lists body n uri) : uri = address entry level (segmentName n) ∧ first ≤ n ∧
      n < first + count := by
  obtain ⟨i,found,here⟩ := lists
  rw [shown.segments,List.getElem?_map,Option.map_eq_some_iff] at found
  obtain ⟨m,found,rfl⟩ := found
  rw [shown.sequence] at here
  obtain ⟨inside,value⟩ := List.getElem?_eq_some_iff.mp found
  rw [List.length_range'] at inside
  rw [List.getElem_range',Nat.one_mul] at value
  exact ⟨by rw [here,value],by omega,by omega⟩
theorem generationOf_address {entry : Text} (named : Named entry) (level row : Text) :
    generationOf (address entry level row) = entry := by
  have rest : (address entry level row).drop 3 = entry ++ '/' :: level ++ '/' :: row := by
    have dots : lit "../" = ['.','.','/'] := by decide
    unfold address
    rw [dots,List.append_assoc,List.append_assoc,List.append_assoc]
    rfl
  unfold generationOf
  rw [rest,List.append_assoc,List.takeWhile_append_of_pos (fun c inside => decide_eq_true (named c inside).2)]
  simp
theorem Publishes.generation {body entry level : Text} {d first count : Nat}
    (shown : Publishes body entry level d first count)
    (named : Named entry) {uri : Text} (inside : uri ∈ uris body) : generationOf uri = entry := by
  rw [shown.segments,List.mem_map] at inside
  obtain ⟨n,_,rfl⟩ := inside
  exact generationOf_address named _ _

end RelaySwarm.Playlist
