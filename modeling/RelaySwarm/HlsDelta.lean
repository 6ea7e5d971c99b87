import Mathlib.Data.List.Nodup
import RelaySwarm.HlsReadings

/-!
A delta playlist means the same as the full one. Its skip restores what the full playlist
had read up to there, and from there both are read alike: the same records come out, also
along a chain in which each delta is read against the catalogue of the one before.
-/
namespace RelaySwarm.HlsMedia
open NumberWindows
variable {tools : Tools} {o : Options} {catalogue : Option Catalogue} {s s' t : Reading} {tag : Tag} {line : Text}

/-! ### Playlists -/

variable {all : List Text} {n : Nat} {last : MediaRecord}
/-- The lines of a segment; a key or a map may stand by itself. -/
def Tag.media : Tag → Bool
  | .uri _ | .part _ | .duration _ | .byteRange _ | .skip _ => true
  | _ => false
/-- A line about the playlist as a whole, or none that is read. -/
def Tag.plain : Tag → Bool
  | .mediaSequence _ | .discontinuitySequence _ | .discontinuity | .other => true
  | _ => false

/-- A delta playlist of a full one: a header is followed by the lines of the first
    segments, which are dropped for a skip that counts them. What numbers the segments is
    kept. -/
structure DeltaForm (full delta : Text) where
  header : List Text
  dropped : List Text
  kept : List Text
  skip : Text
  later : List Text
  full_lines : lines full = .ok (header ++ dropped ++ later)
  delta_lines : lines delta = .ok (header ++ kept ++ skip :: later)
  whole : ∀ line ∈ header ++ dropped ++ later, (tagOf line).skips = false
  header_bare : ∀ line ∈ header, (tagOf line).media = false
  kept_dropped : kept.Sublist dropped
  kept_plain : ∀ line ∈ kept, (tagOf line).plain = true
  numbering : kept.filter (fun line => (tagOf line).numbers) = dropped.filter (fun line => (tagOf line).numbers)
  segments : ∃ line, dropped.getLast? = some line ∧ (tagOf line).closes = true
  counted : ∃ text attrs, tagOf skip = .skip text ∧ attributes text = .ok attrs ∧
    hlsInteger (attr attrs "SKIPPED-SEGMENTS") = .ok (closed dropped)
/-- The sequence numbers of the segments that are skipped. -/
def DeltaForm.skipped {full delta : Text} (form : DeltaForm full delta) : List Nat :=
  List.range' (opening (form.header ++ form.dropped)) (closed form.dropped)
/-- The same records at each of these numbers. -/
def Agrees (numbers : List Nat) (a b : Catalogue) : Prop :=
  ∀ n ∈ numbers, elementsAt (·.sequence) a.records n = elementsAt (·.sequence) b.records n

/-! ### Before the skip -/

theorem readTag_options (whole : tag.skips = false) :
    readTag tools { o with previousCatalogue := catalogue } s tag = readTag tools o s tag := by
  cases tag with
  | skip attrs => cases whole
  | _ => rfl
theorem readLines_options (whole : ∀ line ∈ all, (tagOf line).skips = false) :
    readLines tools { o with previousCatalogue := catalogue } all s = readLines tools o all s := by
  induction all generalizing s with
  | nil => rfl
  | cons line rest ih =>
    simp only [readLines,readTag_options (whole line (by simp)),ih (fun line kept => whole line (by simp [kept]))]

/-- Nothing of a segment has been read. -/
structure Bare (s : Reading) : Prop where
  records : s.records = []
  range : s.range = []
  duration : s.duration = false
  partIndex : s.partIndex = 0
  skipSeen : s.skipSeen = false
  mediaSeen : s.mediaSeen = false
theorem Bare.step (bare : Bare s) (done : readTag tools o s tag = .ok s') (outside : tag.media = false) : Bare s' := by
  obtain ⟨records,range,duration,partIndex,skipSeen,mediaSeen⟩ := bare
  cases tag with
  | mediaSequence value =>
    simp only [readTag,bind_ok,pure_ok] at done
    obtain ⟨_,_,_,_,rfl⟩ := done
    exact ⟨records,range,duration,partIndex,skipSeen,mediaSeen⟩
  | discontinuitySequence value =>
    simp only [readTag,bind_ok,pure_ok] at done
    obtain ⟨_,_,_,_,rfl⟩ := done
    exact ⟨records,range,duration,partIndex,skipSeen,mediaSeen⟩
  | discontinuity =>
    cases pure_ok.mp done
    exact ⟨records,range,duration,partIndex,skipSeen,mediaSeen⟩
  | key attrs =>
    obtain ⟨key,rfl,_⟩ := readKey_ok done
    exact ⟨records,range,duration,partIndex,skipSeen,mediaSeen⟩
  | map attrs =>
    obtain ⟨map,rfl,_⟩ := readMap_ok done
    exact ⟨records,range,duration,partIndex,skipSeen,mediaSeen⟩
  | other =>
    cases pure_ok.mp done
    exact ⟨records,range,duration,partIndex,skipSeen,mediaSeen⟩
  | skip attrs => cases outside
  | part attrs => cases outside
  | duration value => cases outside
  | byteRange value => cases outside
  | uri uri => cases outside
theorem Bare.lines (bare : Bare s) (done : readLines tools o all s = .ok s')
    (outside : ∀ line ∈ all, (tagOf line).media = false) : Bare s' := by
  induction all generalizing s with
  | nil =>
    cases pure_ok.mp done
    exact bare
  | cons line rest ih =>
    simp only [readLines,bind_ok] at done
    obtain ⟨middle,first,done⟩ := done
    exact ih (bare.step first (outside line (by simp))) done (fun line kept => outside line (by simp [kept]))

theorem plain_anywhere (done : readTag tools o s tag = .ok s') (plain : tag.plain = true) (bare : Bare t) :
    ∃ discontinuity, readTag tools o t tag =
      .ok { t with sequence := tag.opening t.sequence, discontinuity := discontinuity } := by
  cases tag with
  | mediaSequence value =>
    simp only [readTag,bind_ok] at done
    obtain ⟨_,_,n,read,_⟩ := done
    refine ⟨t.discontinuity,?_⟩
    simp only [readTag,bind_ok,failIf_ok,bare.mediaSeen,bare.skipSeen,pure_ok]
    refine ⟨(),rfl,n,read,?_⟩
    rw [← (hlsInteger_ok read).1]
    rfl
  | discontinuitySequence value =>
    simp only [readTag,bind_ok] at done
    obtain ⟨_,_,n,read,_⟩ := done
    refine ⟨n,?_⟩
    simp only [readTag,bind_ok,failIf_ok,bare.mediaSeen,bare.skipSeen,pure_ok]
    exact ⟨(),rfl,n,read,rfl⟩
  | discontinuity => exact ⟨_,rfl⟩
  | other => exact ⟨t.discontinuity,rfl⟩
  | key attrs => cases plain
  | map attrs => cases plain
  | skip attrs => cases plain
  | part attrs => cases plain
  | duration value => cases plain
  | byteRange value => cases plain
  | uri uri => cases plain
theorem readLines_each (done : readLines tools o all s = .ok s') :
    ∀ line ∈ all, ∃ before after, readTag tools o before (tagOf line) = .ok after := by
  induction all generalizing s with
  | nil => exact fun _ none_there => nomatch none_there
  | cons line rest ih =>
    simp only [readLines,bind_ok] at done
    obtain ⟨middle,first,done⟩ := done
    intro other there
    rcases List.mem_cons.mp there with rfl | later
    · exact ⟨s,middle,first⟩
    · exact ih done other later
theorem plain_lines {kept : List Text}
    (each : ∀ line ∈ kept, ∃ before after, readTag tools o before (tagOf line) = .ok after)
    (plain : ∀ line ∈ kept, (tagOf line).plain = true) (bare : Bare t) :
    ∃ discontinuity, readLines tools o kept t =
      .ok { t with
        sequence := kept.foldl (fun n line => (tagOf line).opening n) t.sequence, discontinuity := discontinuity } := by
  induction kept generalizing t with
  | nil => exact ⟨t.discontinuity,rfl⟩
  | cons line rest ih =>
    obtain ⟨before,after,done⟩ := each line (by simp)
    obtain ⟨one,first⟩ := plain_anywhere done (plain line (by simp)) bare
    obtain ⟨discontinuity,others⟩ :=
      ih (fun line kept => each line (by simp [kept])) (fun line kept => plain line (by simp [kept]))
      (show Bare { t with sequence := (tagOf line).opening t.sequence, discontinuity := one } from
        ⟨bare.records,bare.range,bare.duration,bare.partIndex,bare.skipSeen,bare.mediaSeen⟩)
    refine ⟨discontinuity,?_⟩
    simp only [readLines,bind_ok]
    exact ⟨_,first,others⟩

theorem opening_filter : all.foldl (fun n line => (tagOf line).opening n) n =
    (all.filter (fun line => (tagOf line).numbers)).foldl (fun n line => (tagOf line).opening n) n := by
  induction all generalizing n with
  | nil => rfl
  | cons line rest ih =>
    by_cases numbered : (tagOf line).numbers = true
    · simp only [List.filter_cons,numbered,if_true,List.foldl_cons]
      exact ih
    · have same : (tagOf line).opening n = n := Tag.opening_same (by simpa using numbered)
      simp only [List.filter_cons,numbered,if_false,List.foldl_cons,same,Bool.false_eq_true]
      exact ih
theorem closed_bare (outside : ∀ line ∈ all, (tagOf line).media = false) : closed all = 0 := by
  rw [closed,List.countP_eq_zero]
  intro line there
  have out := outside line there
  cases tagged : tagOf line with
  | uri uri =>
    rw [tagged] at out
    cases out
  | _ => simp [Tag.closes]

/-! ### The skip -/

/-- The reading with records added. -/
def Reading.restored (s : Reading) (records : List MediaRecord) : Reading :=
  { s with
    records := s.records ++ records, assets := s.assets ++ records.flatMap (·.assets), keys :=
      s.keys ++ records.flatMap (·.keys) }
theorem restored_append {first rest : List MediaRecord} :
    (s.restored first).restored rest = s.restored (first ++ rest) := by
  simp [Reading.restored]
theorem addAll_ok {records : List MediaRecord} (room : s.records.length + records.length ≤ maxRecords) :
    addAll records s = .ok (s.restored records) := by
  induction records generalizing s with
  | nil => simp [addAll,Reading.restored,pure_ok]
  | cons record rest ih =>
    simp only [List.length_cons] at room
    simp only [addAll,bind_ok,add_ok]
    refine ⟨_,⟨by omega,rfl⟩,?_⟩
    rw [ih (by simp; omega)]
    simp [Reading.restored]
def segmentAt (previous : Catalogue) (n : Nat) : Option MediaRecord :=
  (elementsAt (·.sequence) previous.records n).find? (·.part = none)
theorem restore_ok {previous : Catalogue} {numbers : List Nat} {last : Option MediaRecord}
    (there : ∀ n ∈ numbers, (segmentAt previous n).isSome)
    (room : s.records.length + (numbers.flatMap (elementsAt (·.sequence) previous.records)).length ≤ maxRecords) :
    restore previous numbers last s =
      .ok (numbers.getLast?.elim last (segmentAt previous),
        s.restored (numbers.flatMap (elementsAt (·.sequence) previous.records))) := by
  induction numbers generalizing s last with
  | nil => simp [restore,Reading.restored,pure_ok]
  | cons n rest ih =>
    simp only [List.flatMap_cons,List.length_append] at room
    obtain ⟨segment,found⟩ := Option.isSome_iff_exists.mp (there n (by simp))
    have first : addAll (elementsAt (·.sequence) previous.records n) s =
        .ok (s.restored (elementsAt (·.sequence) previous.records n)) :=
      addAll_ok (by omega)
    have others : restore previous rest (some segment) (s.restored (elementsAt (·.sequence) previous.records n)) = _ :=
      ih
      (fun n later => there n (by simp [later])) (by rw [Reading.restored,List.length_append]; omega)
    have found' : (previous.records.filter (·.sequence = n)).find? (·.part = none) = some segment := found
    have first' : addAll (previous.records.filter (·.sequence = n)) s = _ := first
    simp only [restore,found',bind_ok]
    refine ⟨_,first',?_⟩
    rw [others,restored_append]
    cases rest with
    | nil => simp [found]
    | cons m rest => simp [List.getLast?_cons]

theorem Read.segment_at {segment : MediaRecord} (read : Read all s) (kept : segment ∈ s.records)
    (whole : segment.part = none) :
    (elementsAt (·.sequence) s.records segment.sequence).find? (·.part = none) = some segment := by
  have here : segment ∈ elementsAt (·.sequence) s.records segment.sequence := List.mem_filter.mpr ⟨kept,by simp⟩
  cases found : (elementsAt (·.sequence) s.records segment.sequence).find? (·.part = none) with
  | none =>
    have := List.find?_eq_none.mp found segment here
    simp [whole] at this
  | some other =>
    obtain ⟨in_records,same⟩ := List.mem_filter.mp (List.mem_of_find?_eq_some found)
    have other_whole := List.find?_some found
    have once : ((s.records.filter (·.part = none)).map (·.sequence)).Nodup := by
      rw [read.segments]
      exact List.nodup_range'
    have eq : other = segment := List.inj_on_of_nodup_map once (List.mem_filter.mpr ⟨in_records,other_whole⟩)
      (List.mem_filter.mpr ⟨kept,by simp [whole]⟩) (by simpa using same)
    rw [eq]
theorem Read.segment_there (read : Read all s) (numbered : n ∈ List.range' (opening all) (closed all)) :
    ((elementsAt (·.sequence) s.records n).find? (·.part = none)).isSome := by
  rw [← read.segments] at numbered
  obtain ⟨segment,kept,rfl⟩ := List.mem_map.mp numbered
  obtain ⟨kept,whole⟩ := List.mem_filter.mp kept
  rw [read.segment_at kept (by simpa using whole)]
  rfl
theorem Read.gathered (read : Read all s) (behind : Behind s last) :
    gathered (·.sequence) s.records (opening all) (closed all) = s.records := by
  refine gathered_all read.ordered fun record kept => ?_
  have reached := read.sequence
  have := behind.below record kept
  exact ⟨(read.within record kept).1,by omega⟩
theorem Read.counted (read : Read all s) (behind : Behind s last) :
    0 < closed all ∧ closed all ≤ maxRecords := by
  have reached := read.sequence
  have opens := (read.within last behind.kept).1
  have next := behind.sequence
  have few : (s.records.filter (·.part = none)).length ≤ s.records.length := List.length_filter_le ..
  have segments := congrArg List.length read.segments
  rw [List.length_map,List.length_range'] at segments
  have room := read.room
  exact ⟨by omega,by omega⟩

/-! ### Behind the skip -/

/-- The same reading but for what was collected on the way. -/
def Reading.aside (s : Reading) (assets keys : List Text) (skipSeen mediaSeen : Bool) : Reading :=
  { s with assets := assets, keys := keys, skipSeen := skipSeen, mediaSeen := mediaSeen }

theorem collected {a b added : List Text} (fewer : a ⊆ b) : a ++ added ⊆ b ++ added :=
  List.append_subset.mpr ⟨List.Subset.trans fewer (List.subset_append_left _ _),List.subset_append_right _ _⟩

theorem flat_subset {records : List MediaRecord} {of : MediaRecord → List Text}
    (each : ∀ record ∈ records, of record ⊆ all) :
    records.flatMap of ⊆ all := by
  intro one there
  obtain ⟨record,kept,there⟩ := List.mem_flatMap.mp there
  exact each record kept there

theorem readTag_aside {assets keys : List Text} {skipSeen mediaSeen : Bool} (done : readTag tools o s tag = .ok s')
    (whole : tag.skips = false)
    (seen : s.mediaSeen = true) (late : (mediaSeen || skipSeen) = true) (fewer : assets ⊆ s.assets)
    (fewer_keys : keys ⊆ s.keys) :
    ∃ assets' keys' mediaSeen', readTag tools o (s.aside assets keys skipSeen mediaSeen) tag =
      .ok (s'.aside assets' keys' skipSeen mediaSeen') ∧
      (mediaSeen' || skipSeen) = true ∧ assets' ⊆ s'.assets ∧ keys' ⊆ s'.keys := by
  cases tag with
  | mediaSequence value =>
    simp [readTag,bind_ok,failIf_ok,seen] at done
  | discontinuitySequence value =>
    simp [readTag,bind_ok,failIf_ok,seen] at done
  | discontinuity =>
    cases pure_ok.mp done
    exact ⟨assets,keys,mediaSeen,rfl,late,fewer,fewer_keys⟩
  | key attrs =>
    obtain ⟨key,rfl,everywhere⟩ := readKey_ok done
    exact ⟨assets,_,mediaSeen,everywhere _,late,fewer,collected fewer_keys⟩
  | map attrs =>
    obtain ⟨map,rfl,everywhere⟩ := readMap_ok done
    exact ⟨_,keys,mediaSeen,everywhere _ rfl,late,collected fewer,fewer_keys⟩
  | skip attrs => cases whole
  | part attrs =>
    simp only [readTag,readPart,bind_ok] at done ⊢
    obtain ⟨values,parsed,_,timed,done⟩ := done
    by_cases gap : attr values "GAP" = "YES".toList
    · rw [if_pos gap] at done
      simp only [bind_ok,pure_ok] at done
      obtain ⟨_,few,rfl⟩ := done
      refine ⟨assets,keys,mediaSeen,⟨values,parsed,_,timed,?_⟩,late,fewer,fewer_keys⟩
      rw [if_pos gap]
      simp only [bind_ok,pure_ok]
      exact ⟨(),few,rfl⟩
    · rw [if_neg gap] at done
      simp only [bind_ok,add_ok,pure_ok] at done
      obtain ⟨part,made,_,⟨room,rfl⟩,_,few,rfl⟩ := done
      refine ⟨assets ++ part.assets,keys ++ part.keys,true,⟨values,parsed,_,timed,?_⟩,rfl,collected fewer,
        collected fewer_keys⟩
      rw [if_neg gap]
      simp only [bind_ok,add_ok,pure_ok]
      exact ⟨part,made,_,⟨room,rfl⟩,_,few,rfl⟩
  | duration value =>
    simp only [readTag,bind_ok,pure_ok] at done ⊢
    obtain ⟨_,timed,rfl⟩ := done
    exact ⟨assets,keys,mediaSeen,⟨_,timed,rfl⟩,late,fewer,fewer_keys⟩
  | byteRange value =>
    simp only [readTag,bind_ok,pure_ok] at done ⊢
    obtain ⟨_,once,rfl⟩ := done
    exact ⟨assets,keys,mediaSeen,⟨_,once,rfl⟩,late,fewer,fewer_keys⟩
  | uri uri =>
    simp only [readTag,readUri,bind_ok,add_ok,safe_ok,pure_ok] at done ⊢
    obtain ⟨_,timed,segment,made,_,⟨room,rfl⟩,_,⟨small,rfl⟩,rfl⟩ := done
    exact ⟨assets ++ segment.assets,keys ++ segment.keys,true,⟨_,timed,segment,made,_,⟨room,rfl⟩,_,⟨small,rfl⟩,rfl⟩,rfl,
      collected fewer,collected fewer_keys⟩
  | other =>
    cases pure_ok.mp done
    exact ⟨assets,keys,mediaSeen,rfl,late,fewer,fewer_keys⟩
theorem readLines_aside {assets keys : List Text} {skipSeen mediaSeen : Bool} (done : readLines tools o all s = .ok s')
    (whole : ∀ line ∈ all, (tagOf line).skips = false) (seen : s.mediaSeen = true)
    (late : (mediaSeen || skipSeen) = true)
    (fewer : assets ⊆ s.assets) (fewer_keys : keys ⊆ s.keys) :
    ∃ assets' keys' mediaSeen', readLines tools o all (s.aside assets keys skipSeen mediaSeen) =
      .ok (s'.aside assets' keys' skipSeen mediaSeen') ∧
      assets' ⊆ s'.assets ∧ keys' ⊆ s'.keys := by
  induction all generalizing s assets keys mediaSeen with
  | nil =>
    cases pure_ok.mp done
    exact ⟨assets,keys,mediaSeen,rfl,fewer,fewer_keys⟩
  | cons line rest ih =>
    have whole' : ∀ line ∈ rest, (tagOf line).skips = false := fun line kept => whole line (by simp [kept])
    simp only [readLines,bind_ok] at done
    obtain ⟨middle,first,done⟩ := done
    have seen' := (readLines_later (readLines_one.mpr first) seen (by simpa using whole line (by simp))).1
    obtain ⟨assets₁,keys₁,mediaSeen₁,alike,late₁,fewer₁,fewer_keys₁⟩ :=
      readTag_aside first (whole line (by simp)) seen late fewer fewer_keys
    obtain ⟨assets₂,keys₂,mediaSeen₂,alike₂,fewer₂,fewer_keys₂⟩ := ih done whole' seen' late₁ fewer₁ fewer_keys₁
    refine ⟨assets₂,keys₂,mediaSeen₂,?_,fewer₂,fewer_keys₂⟩
    simp only [readLines,bind_ok]
    exact ⟨_,alike,alike₂⟩

/-! ### A whole playlist -/

theorem readLines_collects (done : readLines tools o all s = .ok s')
    (whole : ∀ line ∈ all, (tagOf line).skips = false) :
    s.assets ⊆ s'.assets ∧ s.keys ⊆ s'.keys := by
  induction all generalizing s with
  | nil =>
    cases pure_ok.mp done
    exact ⟨List.Subset.refl _,List.Subset.refl _⟩
  | cons line rest ih =>
    simp only [readLines,bind_ok] at done
    obtain ⟨middle,first,done⟩ := done
    obtain ⟨assets,keys⟩ := ih done (fun line kept => whole line (by simp [kept]))
    have one : s.assets ⊆ middle.assets ∧ s.keys ⊆ middle.keys := by
      rcases readTag_kinds first (whole line (by simp))
        with ⟨_,_,_,_,rfl⟩ | ⟨_,_,_,_,_,rfl⟩ | ⟨_,_,_,_,_,_,rfl⟩ | ⟨_,_,quiet⟩
      · exact ⟨List.Subset.refl _,List.Subset.refl _⟩
      · exact ⟨List.subset_append_left _ _,List.subset_append_left _ _⟩
      · exact ⟨List.subset_append_left _ _,List.subset_append_left _ _⟩
      · exact ⟨quiet.assets,quiet.keys⟩
    exact ⟨List.Subset.trans one.1 assets,List.Subset.trans one.2 keys⟩

section Forms
variable {full delta : Text} {previous : Catalogue} {b : Reading}

theorem DeltaForm.closed_front (form : DeltaForm full delta) :
    closed (form.header ++ form.dropped) = closed form.dropped := by
  rw [closed_append,closed_bare form.header_bare,Nat.zero_add]
theorem DeltaForm.opening_kept (form : DeltaForm full delta) :
    form.kept.foldl (fun n line => (tagOf line).opening n) (opening form.header) =
      opening (form.header ++ form.dropped) := by
  rw [opening_filter,form.numbering,← opening_filter,opening,opening,List.foldl_append]
theorem DeltaForm.front_whole (form : DeltaForm full delta) :
    ∀ line ∈ form.header ++ form.dropped, (tagOf line).skips = false :=
  fun line there => form.whole line (List.mem_append_left _ there)
theorem DeltaForm.behind (form : DeltaForm full delta)
    (front : readLines tools o (form.header ++ form.dropped) Reading.start = .ok b) :
    ∃ last, Behind b last := by
  obtain ⟨line,at_end,closes⟩ := form.segments
  obtain ⟨init,split⟩ := List.getLast?_eq_some_iff.mp at_end
  have all_whole := form.front_whole
  rw [split,← List.append_assoc] at front all_whole
  obtain ⟨middle,before,one⟩ := readLines_append.mp front
  have read : Read ([] ++ (form.header ++ init)) middle :=
    read_start.lines before fun line there => all_whole line (List.mem_append_left _ there)
  exact read.behind (readLines_one.mp one) closes

theorem DeltaForm.top (form : DeltaForm full delta) (catalogue : Option Catalogue)
    (front : readLines tools o (form.header ++ form.dropped) Reading.start = .ok b) :
    ∃ t, readLines tools { o with previousCatalogue := catalogue } (form.header ++ form.kept) Reading.start = .ok t ∧
      Bare t ∧
      t.sequence = opening (form.header ++ form.dropped) ∧ t.assets ⊆ b.assets ∧ t.keys ⊆ b.keys := by
  obtain ⟨h,header_read,dropped_read⟩ := readLines_append.mp front
  have header_whole : ∀ line ∈ form.header, (tagOf line).skips = false :=
    fun line there => form.front_whole line (List.mem_append_left _ there)
  have dropped_whole : ∀ line ∈ form.dropped, (tagOf line).skips = false :=
    fun line there => form.front_whole line (List.mem_append_right _ there)
  have bare : Bare h := Bare.lines ⟨rfl,rfl,rfl,rfl,rfl,rfl⟩ header_read form.header_bare
  have read : Read form.header h := by simpa using read_start.lines header_read header_whole
  have opens : h.sequence = opening form.header := by rw [read.sequence,closed_bare form.header_bare,Nat.add_zero]
  obtain ⟨discontinuity,kept_read⟩ := plain_lines
    (fun line kept => readLines_each dropped_read line (form.kept_dropped.subset kept)) form.kept_plain bare
  obtain ⟨assets,keys⟩ := readLines_collects dropped_read dropped_whole
  rw [opens,form.opening_kept,← readLines_options fun line kept => dropped_whole line (form.kept_dropped.subset kept)]
    at kept_read
  rw [← readLines_options header_whole] at header_read
  exact ⟨_,readLines_append.mpr ⟨h,header_read,kept_read⟩,
    ⟨bare.records,bare.range,bare.duration,bare.partIndex,bare.skipSeen,bare.mediaSeen⟩,rfl,assets,keys⟩

theorem DeltaForm.skip_reads (form : DeltaForm full delta) (read : Read (form.header ++ form.dropped) b)
    (behind : Behind b last) (bare : Bare t) (opens : t.sequence = opening (form.header ++ form.dropped))
    (agree : ∀ n ∈ form.skipped, elementsAt (·.sequence) previous.records n = elementsAt (·.sequence) b.records n) :
    readTag tools { o with previousCatalogue := some previous } t (tagOf form.skip) =
      .ok (b.aside (t.assets ++ b.records.flatMap (·.assets)) (t.keys ++ b.records.flatMap (·.keys)) true false) := by
  have numbers :
      form.skipped = List.range' (opening (form.header ++ form.dropped)) (closed (form.header ++ form.dropped)) := by
    rw [form.closed_front,DeltaForm.skipped]
  have restored : form.skipped.flatMap (elementsAt (·.sequence) previous.records) = b.records := by
    rw [List.flatMap_congr agree,numbers]
    exact read.gathered behind
  have there : ∀ n ∈ form.skipped, (segmentAt previous n).isSome := by
    intro n skipped
    rw [segmentAt,agree n skipped]
    exact read.segment_there (numbers ▸ skipped)
  obtain ⟨some_counted,few⟩ := read.counted behind
  have reached := read.sequence
  rw [form.closed_front] at some_counted few reached
  have next := behind.sequence
  have last_number : form.skipped.getLast? = some last.sequence := by
    rw [DeltaForm.skipped,List.getLast?_range',if_neg (by omega)]
    congr 1
    omega
  have last_segment : segmentAt previous last.sequence = some last := by
    rw [segmentAt,agree _ (List.mem_of_getLast? last_number)]
    exact read.segment_at behind.kept behind.segment
  have room : t.records.length + (form.skipped.flatMap (elementsAt (·.sequence) previous.records)).length ≤
      maxRecords := by
    rw [restored,bare.records]
    simpa using read.room
  have restores : restore previous form.skipped none t = _ := restore_ok there room
  rw [last_number,Option.elim_some,last_segment,restored] at restores
  obtain ⟨text,attrs,tagged,parsed,counted⟩ := form.counted
  have small := read.safe
  rw [tagged]
  simp only [readTag,readSkip,bind_ok,failIf_ok,safe_ok,bare.skipSeen,bare.mediaSeen,opens]
  refine ⟨(),rfl,attrs,parsed,_,counted,(),by simp; omega,_,⟨by rw [← reached]; exact small,rfl⟩,_,restores,?_⟩
  simp only [pure_ok]
  simp [Reading.aside,Reading.restored,bare.records,bare.range,bare.duration,bare.partIndex,bare.mediaSeen,reached,
    behind.previous,behind.discontinuity,behind.key,behind.map,behind.range,behind.duration,behind.partIndex]

theorem DeltaForm.same_records (form : DeltaForm full delta) {whole : Catalogue}
    (accepted : parseHlsMedia tools o full = .ok whole) (agree : Agrees form.skipped previous whole) :
    ∃ part, parseHlsMedia tools { o with previousCatalogue := some previous } delta = .ok part ∧
      part.records = whole.records := by
  simp only [parseHlsMedia,bind_ok,form.full_lines,Except.ok.injEq] at accepted
  obtain ⟨_,rfl,e,run,concluded⟩ := accepted
  obtain ⟨b,front,later_read⟩ := readLines_append.mp run
  have later_whole : ∀ line ∈ form.later, (tagOf line).skips = false :=
    fun line there => form.whole line (List.mem_append_right _ there)
  have read : Read (form.header ++ form.dropped) b := by simpa using read_start.lines front form.front_whole
  obtain ⟨last,behind⟩ := form.behind front
  obtain ⟨_,later,records,beyond⟩ := readLines_later later_read behind.mediaSeen later_whole
  simp only [conclude,bind_ok,failIf_ok,pure_ok] at concluded
  obtain ⟨_,complete,_,separate,rfl⟩ := concluded
  have agree_b : ∀ n ∈ form.skipped, elementsAt (·.sequence) previous.records n =
      elementsAt (·.sequence) b.records n := by
    intro n skipped
    have := (List.mem_range'_1.mp skipped).2
    have reached := read.sequence
    rw [form.closed_front] at reached
    have none_later : elementsAt (·.sequence) later n = [] := elementsAt_beyond fun record added => by
      have := beyond record added
      omega
    rw [agree n skipped]
    show elementsAt (·.sequence) e.records n = _
    rw [records,elementsAt_append,none_later,List.append_nil]
  obtain ⟨t,top,bare,opens,assets,keys⟩ := form.top (some previous) front
  have skip : readTag tools { o with previousCatalogue := some previous } t (tagOf form.skip) = _ :=
    form.skip_reads read behind bare opens agree_b
  obtain ⟨assets',keys',mediaSeen,rest,fewer,fewer_keys⟩ :=
    readLines_aside later_read later_whole behind.mediaSeen (Bool.or_true false)
    (List.append_subset.mpr ⟨assets,flat_subset read.assets⟩) (List.append_subset.mpr ⟨keys,flat_subset read.keys⟩)
  refine ⟨⟨e.records,assets',keys'⟩,?_,rfl⟩
  simp only [parseHlsMedia,bind_ok,form.delta_lines,Except.ok.injEq]
  refine ⟨_,rfl,e.aside assets' keys' true mediaSeen,readLines_append.mpr ⟨t,top,?_⟩,?_⟩
  · simp only [readLines,bind_ok]
    exact ⟨_,skip,by rw [readLines_options later_whole]; exact rest⟩
  · simp only [conclude,bind_ok,failIf_ok,pure_ok]
    refine ⟨(),complete,(),?_,rfl⟩
    rw [List.any_eq_false] at separate ⊢
    intro keyPath there
    have := separate keyPath (fewer_keys there)
    simp only [Bool.or_eq_true,decide_eq_true_eq,not_or] at this ⊢
    exact ⟨fun asset => this.1 (fewer asset),this.2⟩

end Forms

/-! ### A chain -/

/-- A full playlist, what it says, and a delta of it. -/
structure Refresh (tools : Tools) where
  options : Options
  full : Text
  delta : Text
  whole : Catalogue
  accepted : parseHlsMedia tools options full = .ok whole
  form : DeltaForm full delta
/-- Each delta is read against the catalogue the one before produced. -/
def readDeltas (tools : Tools) : Catalogue → List (Refresh tools) → Except String (List Catalogue)
  | _,[] => pure []
  | previous,refresh :: rest => do
    let part ← parseHlsMedia tools { refresh.options with previousCatalogue := some previous } refresh.delta
    let later ← readDeltas tools part rest
    pure (part :: later)
/-- What a delta skips has not changed since the full playlist before. -/
def Steady (tools : Tools) : Catalogue → List (Refresh tools) → Prop
  | _,[] => True
  | previous,refresh :: rest => Agrees refresh.form.skipped previous refresh.whole ∧ Steady tools refresh.whole rest

theorem Steady.start {first again : Catalogue} {chain : List (Refresh tools)} (same : again.records = first.records)
    (steady : Steady tools first chain) :
    Steady tools again chain := by
  cases chain with
  | nil => trivial
  | cons refresh rest =>
    refine ⟨?_,steady.2⟩
    intro n skipped
    rw [same]
    exact steady.1 n skipped

theorem chain_same {previous : Catalogue} {chain : List (Refresh tools)} (steady : Steady tools previous chain) :
    ∃ parts, readDeltas tools previous chain = .ok parts ∧ parts.map (·.records) = chain.map (·.whole.records) := by
  induction chain generalizing previous with
  | nil => exact ⟨[],rfl,rfl⟩
  | cons refresh rest ih =>
    obtain ⟨part,read,same⟩ := refresh.form.same_records refresh.accepted steady.1
    obtain ⟨parts,later,others⟩ := ih (steady.2.start same)
    refine ⟨part :: parts,?_,by simp [same,others]⟩
    simp only [readDeltas,bind_ok,pure_ok]
    exact ⟨part,read,parts,later,rfl⟩

/-- A delta of an accepted playlist, read against a catalogue with the records it skips,
    gives the records of the full one; so does every delta of a chain, read against the
    catalogue of the one before. -/
theorem deltas_mean_full (tools : Tools) :
    (∀ (o : Options) (full delta : Text) (whole previous : Catalogue) (form : DeltaForm full delta),
      parseHlsMedia tools o full = .ok whole → Agrees form.skipped previous whole →
      ∃ part, parseHlsMedia tools { o with previousCatalogue := some previous } delta = .ok part ∧
        part.records = whole.records) ∧
    ∀ (previous : Catalogue) (chain : List (Refresh tools)), Steady tools previous chain →
      ∃ parts, readDeltas tools previous chain = .ok parts ∧ parts.map (·.records) = chain.map (·.whole.records) :=
  ⟨fun _ _ _ _ _ form accepted agree => form.same_records accepted agree,fun _ _ steady => chain_same steady⟩

/-- Two ranges of one file, the second from where the first ends; its key has no
    initialisation vector of its own. -/
def rangedFull : Text :=
  ("#EXTM3U\n#EXT-X-MEDIA-SEQUENCE:7\n#EXT-X-KEY:METHOD=AES-128,URI=\"k.bin\"\n#EXTINF:4,\n#EXT-X-BYTERANGE:10@0\na.ts\n" ++
    "#EXT-X-DISCONTINUITY\n#EXTINF:4,\n#EXT-X-BYTERANGE:5\na.ts\n").toList
def rangedDelta : Text :=
  ("#EXTM3U\n#EXT-X-MEDIA-SEQUENCE:7\n#EXT-X-SKIP:SKIPPED-SEGMENTS=1\n" ++
    "#EXT-X-DISCONTINUITY\n#EXTINF:4,\n#EXT-X-BYTERANGE:5\na.ts\n").toList
def rangedTools : Tools where
  pathname uri _ := some ("/media/".toList ++ uri)
  number text := .finite (decimal text)
def rangedRecord (sequence discontinuity start stop : Nat) (iv : String) : MediaRecord where
  path := "/media/a.ts".toList
  playlist := "/media/live.m3u8".toList
  mediaType := "main"
  level := 0
  sequence := sequence
  discontinuity := discontinuity
  part := none
  rangeStart := some start
  rangeEnd := some stop
  encryption := some ⟨"AES-128","/media/k.bin".toList,iv.toList,"identity"⟩
  map := none
  keyIv := none
def rangedWhole : Catalogue where
  records :=
    [rangedRecord 7 0 0 10 "00000000000000000000000000000007",rangedRecord 8 1 10 15 "00000000000000000000000000000008"]
  assets := ["/media/a.ts".toList,"/media/a.ts".toList]
  keys := ["/media/k.bin".toList,"/media/k.bin".toList,"/media/k.bin".toList]
def rangedForm : DeltaForm rangedFull rangedDelta where
  header := ["#EXTM3U".toList,"#EXT-X-MEDIA-SEQUENCE:7".toList]
  dropped :=
    ["#EXT-X-KEY:METHOD=AES-128,URI=\"k.bin\"".toList,"#EXTINF:4,".toList,"#EXT-X-BYTERANGE:10@0".toList,"a.ts".toList]
  kept := []
  skip := "#EXT-X-SKIP:SKIPPED-SEGMENTS=1".toList
  later := ["#EXT-X-DISCONTINUITY".toList,"#EXTINF:4,".toList,"#EXT-X-BYTERANGE:5".toList,"a.ts".toList]
  full_lines := by decide +kernel
  delta_lines := by decide +kernel
  whole := by decide +kernel
  header_bare := by decide +kernel
  kept_dropped := List.nil_sublist _
  kept_plain _ none_kept := nomatch none_kept
  numbering := by decide +kernel
  segments := ⟨_,rfl,by decide +kernel⟩
  counted := ⟨"SKIPPED-SEGMENTS=1".toList,[("SKIPPED-SEGMENTS".toList,"1".toList)],
    by decide +kernel,by decide +kernel,by decide +kernel⟩
def rangedRefresh : Refresh rangedTools where
  options := ⟨"/media/live.m3u8".toList,0,"main",true,none⟩
  full := rangedFull
  delta := rangedDelta
  whole := rangedWhole
  accepted := by decide +kernel
  form := rangedForm
theorem deltas_mean_full_ranged :
    ∃ parts, readDeltas rangedTools rangedWhole [rangedRefresh] = .ok parts ∧
      parts.map (·.records) = [rangedWhole.records] :=
  (deltas_mean_full rangedTools).2 rangedWhole [rangedRefresh] ⟨fun _ _ => rfl,trivial⟩

end RelaySwarm.HlsMedia
