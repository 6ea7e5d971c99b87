import RelaySwarm.HlsMedia
import RelaySwarm.NumberWindows

/-!
What reading a line of a media playlist does. A playlist without a skip is read into
records in the order of their sequence, with one segment for each number from the
first; behind a segment, all that is known is what its record says.
-/
namespace RelaySwarm.HlsMedia
open NumberWindows

section Results
variable {α β : Type} {m : Except String α} {message : String}

theorem bind_ok {f : α → Except String β} {b : β} : m >>= f = .ok b ↔ ∃ a, m = .ok a ∧ f a = .ok b := by
  cases m with
  | error e => exact ⟨(nomatch ·),fun ⟨_,h,_⟩ => nomatch h⟩
  | ok a => exact ⟨fun h => ⟨a,rfl,h⟩,fun ⟨_,h,rest⟩ => by cases h; exact rest⟩
theorem pure_ok {a b : α} : (pure a : Except String α) = .ok b ↔ a = b :=
  ⟨fun h => by cases h; rfl,fun h => by rw [h]; rfl⟩
theorem fail_ok {a : α} : fail message = .ok a ↔ False := ⟨(nomatch ·),False.elim⟩
theorem failIf_ok {refused : Bool} {u : Unit} : failIf refused message = .ok u ↔ refused = false := by
  cases refused <;> simp [failIf,fail_ok,pure_ok]
theorem safe_ok {n k : Nat} : safe n = .ok k ↔ n ≤ maxSafe ∧ n = k := by
  unfold safe
  split_ifs with small
  · simp [pure_ok,small]
  · simp [fail_ok,small]

end Results

/-! ### Lines -/

variable {tools : Tools} {o : Options} {s s' : Reading} {text uri rangeText : Text} {part : Option Nat}
    {record : MediaRecord}

theorem add_ok : add record s = .ok s' ↔ s.records.length + 1 ≤ maxRecords ∧
    { s with records := s.records ++ [record], assets := s.assets ++ record.assets, keys := s.keys ++ record.keys } =
      s' := by
  simp only [add,bind_ok,failIf_ok,pure_ok,decide_eq_false_iff_not,Nat.not_lt]
  exact ⟨fun ⟨_,room,same⟩ => ⟨room,same⟩,fun ⟨room,same⟩ => ⟨(),room,same⟩⟩
/-- A record says where it was read. -/
structure Marks (s : Reading) (part : Option Nat) (record : MediaRecord) : Prop where
  sequence : record.sequence = s.sequence
  discontinuity : record.discontinuity = s.discontinuity
  part : record.part = part
  encryption : record.encryption = encryptedContext s.key s.sequence
  map : record.map = s.map
  keyIv : record.keyIv = s.key.bind (·.iv)
theorem makeRecord_marks (made : makeRecord tools o s uri rangeText part = .ok record) : Marks s part record := by
  simp only [makeRecord,bind_ok,pure_ok] at made
  obtain ⟨_,_,_,_,rfl⟩ := made
  exact ⟨rfl,rfl,rfl,rfl,rfl,rfl⟩
theorem Marks.key (marks : Marks s part record) :
    record.encryption.map (fun encryption => ⟨encryption.keyPath,record.keyIv⟩) = s.key := by
  rw [marks.encryption,marks.keyIv]
  cases s.key <;> rfl

theorem readKey_ok (done : readKey tools o s text = .ok s') : ∃ key : Option Key,
    s' = { s with key := key, keys := s.keys ++ (key.map (·.keyPath)).toList } ∧
    ∀ t, readKey tools o t text = .ok { t with key := key, keys := t.keys ++ (key.map (·.keyPath)).toList } := by
  simp only [readKey,bind_ok] at done
  obtain ⟨attrs,parsed,done⟩ := done
  by_cases none_set : attr attrs "METHOD" = "NONE".toList
  · rw [if_pos none_set,pure_ok] at done
    refine ⟨none,by simpa using done.symm,fun t => ?_⟩
    simp only [readKey,bind_ok]
    exact ⟨attrs,parsed,by rw [if_pos none_set,pure_ok]; simp⟩
  · rw [if_neg none_set] at done
    simp only [bind_ok,pure_ok] at done
    obtain ⟨_,consent,_,method,_,hex,keyPath,found,rfl⟩ := done
    refine ⟨some ⟨keyPath,_⟩,rfl,fun t => ?_⟩
    simp only [readKey,bind_ok]
    refine ⟨attrs,parsed,?_⟩
    rw [if_neg none_set]
    simp only [bind_ok,pure_ok]
    exact ⟨_,consent,_,method,_,hex,keyPath,found,rfl⟩
theorem readMap_ok (done : readMap tools o s text = .ok s') : ∃ map : MediaMap,
    s' = { s with map := some map, assets := s.assets ++ [map.path] } ∧
    ∀ t : Reading, t.key = s.key → readMap tools o t text =
      .ok { t with map := some map, assets := t.assets ++ [map.path] } := by
  simp only [readMap,bind_ok,pure_ok] at done
  obtain ⟨attrs,parsed,uri,found,_,explicit,range,ranged,rfl⟩ := done
  refine ⟨⟨uri,_,_⟩,rfl,fun t same => ?_⟩
  simp only [readMap,bind_ok,pure_ok]
  exact ⟨attrs,parsed,uri,found,_,by rw [same]; exact explicit,range,ranged,rfl⟩
theorem readPart_ok (done : readPart tools o s text = .ok s') :
    s' = { s with partIndex := s.partIndex + 1 } ∨
    ∃ part, Marks s (some s.partIndex) part ∧ s.records.length + 1 ≤ maxRecords ∧
      s' = { s with
        records := s.records ++ [part], assets := s.assets ++ part.assets, keys := s.keys ++ part.keys
        partIndex := s.partIndex + 1, previous := some part, mediaSeen := true } := by
  simp only [readPart,bind_ok] at done
  obtain ⟨attrs,_,_,_,done⟩ := done
  split_ifs at done with gap
  · simp only [bind_ok,pure_ok] at done
    obtain ⟨_,_,rfl⟩ := done
    exact .inl rfl
  · simp only [bind_ok,add_ok,pure_ok] at done
    obtain ⟨part,made,_,⟨room,rfl⟩,_,_,rfl⟩ := done
    exact .inr ⟨part,makeRecord_marks made,room,rfl⟩
theorem readUri_ok (done : readUri tools o s uri = .ok s') :
    ∃ segment, Marks s none segment ∧ s.records.length + 1 ≤ maxRecords ∧ s.sequence + 1 ≤ maxSafe ∧
      s' = { s with
        records := s.records ++ [segment], assets := s.assets ++ segment.assets, keys := s.keys ++ segment.keys
        previous := some segment, sequence := s.sequence + 1, partIndex := 0, range := [], duration :=
          false, mediaSeen := true } := by
  simp only [readUri,bind_ok,add_ok,safe_ok,pure_ok] at done
  obtain ⟨_,_,segment,made,_,⟨room,rfl⟩,_,⟨small,rfl⟩,rfl⟩ := done
  exact ⟨segment,makeRecord_marks made,room,small,rfl⟩

theorem readLines_append {front rest : List Text} :
    readLines tools o (front ++ rest) s = .ok s' ↔ ∃ middle, readLines tools o front s = .ok middle ∧
      readLines tools o rest middle = .ok s' := by
  induction front generalizing s with
  | nil => simp [readLines,pure_ok]
  | cons line front ih =>
    simp only [List.cons_append,readLines,bind_ok,ih]
    constructor
    · rintro ⟨a,first,middle,second,third⟩
      exact ⟨middle,⟨a,first,second⟩,third⟩
    · rintro ⟨middle,⟨a,first,second⟩,third⟩
      exact ⟨a,first,middle,second,third⟩
theorem readLines_one {line : Text} : readLines tools o [line] s = .ok s' ↔
    readTag tools o s (tagOf line) = .ok s' := by
  simp only [readLines,bind_ok,pure_ok]
  exact ⟨fun ⟨_,done,same⟩ => same ▸ done,fun done => ⟨s',done,rfl⟩⟩

/-! ### Kinds of lines -/

def Tag.skips : Tag → Bool
  | .skip _ => true
  | _ => false
/-- A segment ends with its URI. -/
def Tag.closes : Tag → Bool
  | .uri _ => true
  | _ => false
def Tag.numbers : Tag → Bool
  | .mediaSequence _ => true
  | _ => false
/-- The first number, as far as known. -/
def Tag.opening (n : Nat) : Tag → Nat
  | .mediaSequence value => decimal value
  | _ => n
def opening (all : List Text) : Nat := all.foldl (fun n line => (tagOf line).opening n) 0
def closed (all : List Text) : Nat := all.countP (fun line => (tagOf line).closes)

theorem opening_append {front : List Text} {line : Text} :
    opening (front ++ [line]) = (tagOf line).opening (opening front) := by
  simp [opening]
theorem closed_append {front rest : List Text} : closed (front ++ rest) = closed front + closed rest :=
  List.countP_append
theorem Tag.opening_same {tag : Tag} {n : Nat} (other : tag.numbers = false) : tag.opening n = n := by
  cases tag with
  | mediaSequence value => cases other
  | _ => rfl

theorem hlsInteger_ok {value : Text} {n : Nat} (read : hlsInteger value = .ok n) : decimal value = n ∧ n ≤ maxSafe := by
  unfold hlsInteger at read
  split_ifs at read
  · exact (fail_ok.mp read).elim
  · obtain ⟨small,rfl⟩ := safe_ok.mp read
    exact ⟨rfl,small⟩

structure Quiet (s s' : Reading) : Prop where
  records : s'.records = s.records
  sequence : s'.sequence = s.sequence
  mediaSeen : s'.mediaSeen = s.mediaSeen
  skipSeen : s'.skipSeen = s.skipSeen
  assets : s.assets ⊆ s'.assets
  keys : s.keys ⊆ s'.keys
theorem Quiet.same {s' : Reading} (records : s'.records = s.records) (sequence : s'.sequence = s.sequence)
    (mediaSeen : s'.mediaSeen = s.mediaSeen)
    (skipSeen : s'.skipSeen = s.skipSeen) (assets : s'.assets = s.assets) (keys : s'.keys = s.keys) : Quiet s s' :=
  ⟨records,sequence,mediaSeen,skipSeen,assets ▸ List.Subset.refl _,keys ▸ List.Subset.refl _⟩

/-- A line numbers the records to come, adds a part, adds a segment, or adds nothing. -/
theorem readTag_kinds {tag : Tag} (done : readTag tools o s tag = .ok s') (whole : tag.skips = false) :
    (∃ value, tag = .mediaSequence value ∧ s.mediaSeen = false ∧ decimal value ≤ maxSafe ∧
      s' = { s with sequence := decimal value }) ∨
    (∃ attrs part, tag = .part attrs ∧ Marks s (some s.partIndex) part ∧ s.records.length + 1 ≤ maxRecords ∧
      s' = { s with
        records := s.records ++ [part], assets := s.assets ++ part.assets, keys := s.keys ++ part.keys
        partIndex := s.partIndex + 1, previous := some part, mediaSeen := true }) ∨
    (∃ uri segment, tag = .uri uri ∧ Marks s none segment ∧ s.records.length + 1 ≤ maxRecords ∧
      s.sequence + 1 ≤ maxSafe ∧
      s' = { s with
        records := s.records ++ [segment], assets := s.assets ++ segment.assets, keys := s.keys ++ segment.keys
        previous := some segment, sequence := s.sequence + 1, partIndex := 0, range := [], duration :=
          false, mediaSeen := true }) ∨
    (tag.closes = false ∧ tag.numbers = false ∧ Quiet s s') := by
  cases tag with
  | mediaSequence value =>
    simp only [readTag,bind_ok,failIf_ok,Bool.or_eq_false_iff,pure_ok] at done
    obtain ⟨_,⟨unseen,_⟩,n,read,rfl⟩ := done
    obtain ⟨rfl,small⟩ := hlsInteger_ok read
    exact .inl ⟨value,rfl,unseen,small,rfl⟩
  | discontinuitySequence value =>
    simp only [readTag,bind_ok,pure_ok] at done
    obtain ⟨_,_,_,_,rfl⟩ := done
    exact .inr (.inr (.inr ⟨rfl,rfl,.same rfl rfl rfl rfl rfl rfl⟩))
  | discontinuity =>
    cases pure_ok.mp done
    exact .inr (.inr (.inr ⟨rfl,rfl,.same rfl rfl rfl rfl rfl rfl⟩))
  | key attrs =>
    obtain ⟨key,rfl,_⟩ := readKey_ok done
    exact .inr (.inr (.inr ⟨rfl,rfl,rfl,rfl,rfl,rfl,List.Subset.refl _,List.subset_append_left _ _⟩))
  | map attrs =>
    obtain ⟨map,rfl,_⟩ := readMap_ok done
    exact .inr (.inr (.inr ⟨rfl,rfl,rfl,rfl,rfl,rfl,List.subset_append_left _ _,List.Subset.refl _⟩))
  | skip attrs => cases whole
  | part attrs =>
    rcases readPart_ok done with rfl | ⟨part,marks,room,rfl⟩
    · exact .inr (.inr (.inr ⟨rfl,rfl,.same rfl rfl rfl rfl rfl rfl⟩))
    · exact .inr (.inl ⟨attrs,part,rfl,marks,room,rfl⟩)
  | duration value =>
    simp only [readTag,bind_ok,pure_ok] at done
    obtain ⟨_,_,rfl⟩ := done
    exact .inr (.inr (.inr ⟨rfl,rfl,.same rfl rfl rfl rfl rfl rfl⟩))
  | byteRange value =>
    simp only [readTag,bind_ok,pure_ok] at done
    obtain ⟨_,_,rfl⟩ := done
    exact .inr (.inr (.inr ⟨rfl,rfl,.same rfl rfl rfl rfl rfl rfl⟩))
  | uri uri =>
    obtain ⟨segment,marks,room,small,rfl⟩ := readUri_ok done
    exact .inr (.inr (.inl ⟨uri,segment,rfl,marks,room,small,rfl⟩))
  | other =>
    cases pure_ok.mp done
    exact .inr (.inr (.inr ⟨rfl,rfl,.same rfl rfl rfl rfl rfl rfl⟩))

/-! ### A playlist without a skip -/

/-- The segments read so far have all the numbers from the first, and the records are
    in the order of their numbers. -/
structure Read (all : List Text) (s : Reading) : Prop where
  sequence : s.sequence = opening all + closed all
  unseen : s.mediaSeen = false → s.records = [] ∧ closed all = 0
  safe : s.sequence ≤ maxSafe
  room : s.records.length ≤ maxRecords
  whole : s.skipSeen = false
  ordered : s.records.Pairwise (·.sequence ≤ ·.sequence)
  within : ∀ record ∈ s.records, opening all ≤ record.sequence ∧ record.sequence ≤ s.sequence
  segments : (s.records.filter (·.part = none)).map (·.sequence) = List.range' (opening all) (closed all)
  assets : ∀ record ∈ s.records, record.assets ⊆ s.assets
  keys : ∀ record ∈ s.records, record.keys ⊆ s.keys

theorem read_start : Read [] Reading.start where
  sequence := rfl
  unseen _ := ⟨rfl,rfl⟩
  safe := Nat.zero_le _
  room := Nat.zero_le _
  whole := rfl
  ordered := List.Pairwise.nil
  within _ none_read := nomatch none_read
  segments := rfl
  assets _ none_read := nomatch none_read
  keys _ none_read := nomatch none_read

variable {all : List Text} {line : Text}

theorem Read.quiet (read : Read all s) (quiet : Quiet s s') (still : (tagOf line).closes = false)
    (unnumbered : (tagOf line).numbers = false) :
    Read (all ++ [line]) s' := by
  have opens : opening (all ++ [line]) = opening all := by rw [opening_append,Tag.opening_same unnumbered]
  have closes : closed (all ++ [line]) = closed all := by
    rw [closed_append,closed,closed]
    simp [still]
  constructor
  · rw [quiet.sequence,opens,closes,read.sequence]
  · rw [quiet.mediaSeen,quiet.records,closes]
    exact read.unseen
  · rw [quiet.sequence]
    exact read.safe
  · rw [quiet.records]
    exact read.room
  · rw [quiet.skipSeen,read.whole]
  · rw [quiet.records]
    exact read.ordered
  · rw [quiet.records,quiet.sequence,opens]
    exact read.within
  · rw [quiet.records,opens,closes,read.segments]
  · rw [quiet.records]
    exact fun record kept => List.Subset.trans (read.assets record kept) quiet.assets
  · rw [quiet.records]
    exact fun record kept => List.Subset.trans (read.keys record kept) quiet.keys

theorem ordered_added (read : Read all s) (here : record.sequence = s.sequence) :
    (s.records ++ [record]).Pairwise (·.sequence ≤ ·.sequence) := by
  refine List.pairwise_append.mpr ⟨read.ordered,List.pairwise_singleton _ _,fun a kept b one => ?_⟩
  rw [List.mem_singleton.mp one,here]
  exact (read.within a kept).2
theorem subset_added {kept : List Text} {of : MediaRecord → List Text} (before : ∀ a ∈ s.records, of a ⊆ kept) :
    ∀ a ∈ s.records ++ [record], of a ⊆ kept ++ of record := by
  intro a added
  rcases List.mem_append.mp added with old | one
  · exact List.Subset.trans (before a old) (List.subset_append_left _ _)
  · rw [List.mem_singleton.mp one]
    exact List.subset_append_right _ _

theorem Read.tag (read : Read all s) (done : readTag tools o s (tagOf line) = .ok s')
    (whole : (tagOf line).skips = false) :
    Read (all ++ [line]) s' := by
  rcases readTag_kinds done whole with ⟨value,numbered,unseen,small,rfl⟩ | ⟨attrs,part,tagged,marks,room,rfl⟩ |
    ⟨uri,segment,tagged,marks,room,small,rfl⟩ | ⟨opened,unnumbered,quiet⟩
  · obtain ⟨empty,none_closed⟩ := read.unseen unseen
    have opens : opening (all ++ [line]) = decimal value := by rw [opening_append,numbered]; rfl
    have closes : closed (all ++ [line]) = 0 := by
      rw [closed_append,none_closed,closed]
      simp [numbered,Tag.closes]
    constructor
    · simp [opens,closes]
    · exact fun _ => ⟨empty,closes⟩
    · exact small
    · exact read.room
    · exact read.whole
    · exact read.ordered
    · simp [empty]
    · simp [empty,closes]
    · exact read.assets
    · exact read.keys
  · have opens : opening (all ++ [line]) = opening all := by rw [opening_append,tagged]; rfl
    have closes : closed (all ++ [line]) = closed all := by
      rw [closed_append,closed,closed]
      simp [tagged,Tag.closes]
    constructor
    · rw [opens,closes]
      exact read.sequence
    · exact fun unseen => nomatch unseen
    · exact read.safe
    · simpa using room
    · exact read.whole
    · exact ordered_added read marks.sequence
    · rw [opens]
      intro a added
      rcases List.mem_append.mp added with old | one
      · exact read.within a old
      · rw [List.mem_singleton.mp one,marks.sequence,read.sequence]
        omega
    · have : part.part ≠ none := by simp [marks.part]
      simp [opens,closes,List.filter_append,this,read.segments]
    · exact subset_added read.assets
    · exact subset_added read.keys
  · have opens : opening (all ++ [line]) = opening all := by rw [opening_append,tagged]; rfl
    have closes : closed (all ++ [line]) = closed all + 1 := by
      rw [closed_append,closed,closed]
      simp [tagged,Tag.closes]
    constructor
    · rw [opens,closes,← Nat.add_assoc,← read.sequence]
    · exact fun unseen => nomatch unseen
    · exact small
    · simpa using room
    · exact read.whole
    · exact ordered_added read marks.sequence
    · rw [opens]
      intro a added
      rcases List.mem_append.mp added with old | one
      · exact ⟨(read.within a old).1,Nat.le_succ_of_le (read.within a old).2⟩
      · have reached := read.sequence
        rw [List.mem_singleton.mp one,marks.sequence]
        exact ⟨by omega,Nat.le_succ _⟩
    · simp [opens,closes,List.filter_append,marks.part,read.segments,List.range'_concat,marks.sequence,read.sequence]
    · exact subset_added read.assets
    · exact subset_added read.keys
  · exact read.quiet quiet opened unnumbered
theorem Read.lines {rest : List Text} (read : Read all s) (done : readLines tools o rest s = .ok s')
    (whole : ∀ line ∈ rest, (tagOf line).skips = false) : Read (all ++ rest) s' := by
  induction rest generalizing all s with
  | nil =>
    cases pure_ok.mp done
    simpa using read
  | cons line rest ih =>
    simp only [readLines,bind_ok] at done
    obtain ⟨middle,first,rest_done⟩ := done
    have one := read.tag first (whole line (by simp))
    simpa using ih one rest_done (fun line kept => whole line (by simp [kept]))

/-! ### Behind a segment -/

/-- What is known behind a segment is what its record says. -/
structure Behind (s : Reading) (last : MediaRecord) : Prop where
  previous : s.previous = some last
  kept : last ∈ s.records
  segment : last.part = none
  sequence : last.sequence + 1 = s.sequence
  discontinuity : s.discontinuity = last.discontinuity
  key : last.encryption.map (fun encryption => ⟨encryption.keyPath,last.keyIv⟩) = s.key
  map : s.map = last.map
  range : s.range = []
  duration : s.duration = false
  partIndex : s.partIndex = 0
  mediaSeen : s.mediaSeen = true
  below : ∀ record ∈ s.records, record.sequence < s.sequence

theorem Read.behind (read : Read all s) (done : readTag tools o s (tagOf line) = .ok s')
    (closes : (tagOf line).closes = true) :
    ∃ last, Behind s' last := by
  cases tagged : tagOf line with
  | uri uri =>
    rw [tagged] at done
    obtain ⟨segment,marks,_,_,rfl⟩ := readUri_ok done
    refine ⟨segment,rfl,
      by simp,marks.part,by rw [marks.sequence],marks.discontinuity.symm,marks.key,marks.map.symm,rfl,rfl,rfl,rfl,?_⟩
    intro a added
    rcases List.mem_append.mp added with old | one
    · exact Nat.lt_succ_of_le (read.within a old).2
    · rw [List.mem_singleton.mp one,marks.sequence]
      exact Nat.lt_succ_self _
  | _ =>
    rw [tagged] at closes
    cases closes

theorem readLines_later {rest : List Text} (done : readLines tools o rest s = .ok s') (seen : s.mediaSeen = true)
    (whole : ∀ line ∈ rest, (tagOf line).skips = false) :
    s'.mediaSeen = true ∧ ∃ later, s'.records = s.records ++ later ∧
      ∀ record ∈ later, s.sequence ≤ record.sequence := by
  induction rest generalizing s with
  | nil =>
    cases pure_ok.mp done
    exact ⟨seen,[],by simp⟩
  | cons line rest ih =>
    simp only [readLines,bind_ok] at done
    obtain ⟨middle,first,rest_done⟩ := done
    have whole' : ∀ line ∈ rest, (tagOf line).skips = false := fun line kept => whole line (by simp [kept])
    rcases readTag_kinds first (whole line (by simp))
      with ⟨_,_,unseen,_⟩ | ⟨_,part,_,marks,_,rfl⟩ | ⟨_,segment,_,marks,_,_,rfl⟩ | ⟨_,_,quiet⟩
    · rw [seen] at unseen
      cases unseen
    · obtain ⟨seen',later,records,behind⟩ := ih rest_done rfl whole'
      refine ⟨seen',part :: later,by simp [records],fun record added => ?_⟩
      rcases List.mem_cons.mp added with rfl | old
      · exact marks.sequence.ge
      · exact behind record old
    · obtain ⟨seen',later,records,behind⟩ := ih rest_done rfl whole'
      refine ⟨seen',segment :: later,by simp [records],fun record added => ?_⟩
      rcases List.mem_cons.mp added with rfl | old
      · exact marks.sequence.ge
      · exact Nat.le_of_succ_le (behind record old)
    · obtain ⟨seen',later,records,behind⟩ := ih rest_done (quiet.mediaSeen.trans seen) whole'
      rw [quiet.records] at records
      rw [quiet.sequence] at behind
      exact ⟨seen',later,records,behind⟩

end RelaySwarm.HlsMedia
