import RelaySwarm.TransferSteady
import Mathlib.Algebra.Order.BigOperators.Group.Finset

/-!
Honest answers end a mixed transfer. Every answer with the bytes of the object verifies a
piece, or takes a verified piece off a lane while no lane is given one (`waste`), so the
answers cannot go on for ever; while the transfer runs some request waits for one, and
once every piece is verified the object is delivered.
-/
namespace RelaySwarm.Transfers
open Pieces Planning
namespace Transfer

variable {t t' : Transfer} {s : Source} {i n : Nat} {range : PieceRange}
def missing (t : Transfer) : Nat := ((Finset.range t.verified.length).filter (fun i => t.isVerified i = false)).card
/-- How much of the work of a source is on pieces that are verified. -/
def wasted (t : Transfer) (s : Source) : Nat :=
  ((t.lanes.get? s).map (fun lane => ((indices lane.work).filter t.isVerified).length)).getD 0
def waste (t : Transfer) : Nat := ∑ s ∈ t.lanes.keys.toFinset, t.wasted s

theorem wasted_found {lane : Lane} (found : t.lanes.get? s = some lane) :
    t.wasted s = ((indices lane.work).filter t.isVerified).length := by
  simp [wasted,found]
theorem waste_over {sources : Finset Source} (covers : t.lanes.keys.toFinset ⊆ sources) :
    t.waste = ∑ s ∈ sources, t.wasted s := by
  refine Finset.sum_subset covers (fun s _ absent => ?_)
  rw [List.mem_toFinset,OrderedMap.mem_keys] at absent
  cases found : t.lanes.get? s with
  | none => simp [wasted,found]
  | some lane => exact absurd ⟨lane,found⟩ absent
theorem waste_lt (none : ∀ s, t'.wasted s ≤ t.wasted s) (source : Source)
    (less : t'.wasted source < t.wasted source) : t'.waste < t.waste := by
  have within : source ∈ t.lanes.keys.toFinset ∪ t'.lanes.keys.toFinset := by
    rw [Finset.mem_union,List.mem_toFinset,OrderedMap.mem_keys]
    left
    cases found : t.lanes.get? source with
    | none => simp [wasted,found] at less
    | some lane => exact ⟨lane,rfl⟩
  rw [waste_over (t := t) Finset.subset_union_left,waste_over (t := t') Finset.subset_union_right]
  exact Finset.sum_lt_sum (fun s _ => none s) ⟨source,within,less⟩
/-- A lane that keeps no other work than it had, with the same pieces verified, wastes no
    more. -/
theorem wasted_le (verified : t'.verified = t.verified)
    (thins : ∀ lane', t'.lanes.get? s = some lane' → ∃ lane extra, t.lanes.get? s = some lane ∧
      (indices lane'.work).Sublist (indices lane.work ++ extra) ∧ ∀ i ∈ extra, t.isVerified i = false) :
    t'.wasted s ≤ t.wasted s := by
  have same : t'.isVerified = t.isVerified := funext (fun i => verified_same verified)
  cases found : t'.lanes.get? s with
  | none => simp [wasted,found]
  | some lane' =>
    obtain ⟨lane,extra,before,fewer,fresh⟩ := thins lane' found
    rw [wasted_found found,wasted_found before,same]
    have unverified : extra.filter t.isVerified = [] :=
      List.filter_eq_nil_iff.mpr (fun i member => by simp [fresh i member])
    have kept := (fewer.filter t.isVerified).length_le
    rwa [List.filter_append,unverified,List.append_nil] at kept
theorem Grows.wasted {extra : List Nat} (grows : Grows t t' s extra)
    (fresh : ∀ i ∈ extra, t.isVerified i = false) (s' : Source) : t'.wasted s' ≤ t.wasted s' := by
  refine wasted_le grows.verified (fun lane' found => ?_)
  by_cases own : s' = s
  · subst own
    obtain ⟨lane,other,before,after,_,_,work,_⟩ := grows.here
    rw [after] at found
    cases found
    exact ⟨lane,extra,before,by rw [work],fresh⟩
  · rw [grows.others s' own] at found
    exact ⟨lane',[],found,by simp,by simp⟩
theorem Quiet.wasted (quiet : Quiet t t') (s : Source) : t'.wasted s ≤ t.wasted s := by
  refine wasted_le quiet.verified (fun lane' found => ?_)
  obtain ⟨lane,before,same⟩ := quiet.before found
  exact ⟨lane,[],before,by rw [Lane.post_work same]; simp,by simp⟩
theorem Thins.wasted (thins : Thins t t') (verified : t'.verified = t.verified) (s : Source) :
    t'.wasted s ≤ t.wasted s := by
  refine wasted_le verified (fun lane' found => ?_)
  obtain ⟨lane,before,fewer⟩ := thins s lane' found
  exact ⟨lane,[],before,by simpa using fewer,by simp⟩
theorem Give.wasted (given : Give t t') (ready : Ready t) (s : Source) : t'.wasted s ≤ t.wasted s := by
  cases given with
  | notes quiet => exact quiet.wasted s
  | gives found _ now fit finishAt _ => exact (fit.grows ready.orderly found now finishAt).wasted fit.fresh s
  | tries found _ now fit finishAt _ => exact ((fit.grows ready.orderly found now finishAt).marked _).wasted fit.fresh s
  | issues found _ now => exact (issue_grows found now (ready.orderly.within _ _ found)).wasted (by simp) s
  | yields claimed => exact (claimOrigin_thins t claimed).wasted rfl s
theorem Act.wasted (act : Act t t') (ready : Ready t) (s : Source) : t'.wasted s ≤ t.wasted s := by
  cases act with
  | give given => exact given.wasted ready s
  | retires => exact (retire_thins _ _).wasted (retire_works _ _).verified s
theorem Gives.wasted (gives : Gives t t') (ready : Ready t) (s : Source) : t'.wasted s ≤ t.wasted s := by
  induction gives with
  | refl => exact le_rfl
  | tail first given ih =>
    have part : Gives t _ := first
    exact (given.wasted (part.ready ready) s).trans ih
theorem Acts.wasted (acts : Acts t t') (ready : Ready t) (s : Source) : t'.wasted s ≤ t.wasted s := by
  induction acts with
  | refl => exact le_rfl
  | tail first act ih =>
    have part : Acts t _ := first
    exact (act.wasted (part.ready ready) s).trans ih
theorem missing_same (verified : t'.verified = t.verified) : t'.missing = t.missing := by
  have same : t'.isVerified = t.isVerified := funext (fun i => verified_same verified)
  unfold missing
  rw [verified,same]
theorem missing_lt (length : t'.verified.length = t.verified.length)
    (grows : ∀ i, t.isVerified i = true → t'.isVerified i = true) (inside : i < t.verified.length)
    (was : t.isVerified i = false) (done : t'.isVerified i = true) : t'.missing < t.missing := by
  refine Finset.card_lt_card (Finset.ssubset_iff_of_subset (fun j member => ?_) |>.mpr ⟨i,?_,?_⟩)
  · rw [Finset.mem_filter,Finset.mem_range,length] at member
    refine Finset.mem_filter.mpr ⟨Finset.mem_range.mpr member.1,?_⟩
    by_contra verified
    rw [grows j (by simpa using verified)] at member
    cases member.2
  · exact Finset.mem_filter.mpr ⟨Finset.mem_range.mpr inside,was⟩
  · simp [done]

/-! ### Genuine pieces -/

/-- Every verified piece is that of the object. -/
def Genuine (object : List UInt8) (t : Transfer) : Prop := ∀ i, t.isVerified i = true →
  pieceOf t.size t.pieceSize i t.data = pieceOf t.size t.pieceSize i object
/-- The bytes of a range of an object. -/
def rangeOf (t : Transfer) (object : List UInt8) (range : PieceRange) : List UInt8 :=
  (object.drop (t.pieceRangeBytes range).1).take (t.rangeLength range)
/-- The part of a response that is checked as a piece. -/
def partOf (t : Transfer) (range : PieceRange) (bytes : List UInt8) (i : Nat) : List UInt8 :=
  (bytes.drop ((t.pieceRangeBytes ⟨i,i+1⟩).1 - (t.pieceRangeBytes range).1)).take
    ((t.pieceRangeBytes ⟨i,i+1⟩).2 - (t.pieceRangeBytes ⟨i,i+1⟩).1)
theorem partOf_within (t : Transfer) (range : PieceRange) (bytes : List UInt8) (i : Nat) :
    t.partOf range bytes i <:+: bytes :=
  (List.take_prefix _ _).isInfix.trans (List.drop_suffix _ _).isInfix
theorem partOf_length (t : Transfer) {bytes : List UInt8} (whole : bytes.length = t.rangeLength range)
    (member : i ∈ range.indices) : (t.partOf range bytes i).length = pieceBytes t.size t.pieceSize i := by
  obtain ⟨low,high⟩ := mem_range_indices.mp member
  have first : range.start * t.pieceSize ≤ i * t.pieceSize := Nat.mul_le_mul_right _ low
  have last : (i + 1) * t.pieceSize ≤ range.stop * t.pieceSize := Nat.mul_le_mul_right _ high
  have next : (i + 1) * t.pieceSize = i * t.pieceSize + t.pieceSize := by ring
  simp only [partOf,List.length_take,List.length_drop,whole,rangeLength,pieceRangeBytes,pieceBytes]
  omega
theorem partOf_rangeOf (t : Transfer) (object : List UInt8) (member : i ∈ range.indices) :
    t.partOf range (t.rangeOf object range) i = pieceOf t.size t.pieceSize i object := by
  obtain ⟨low,high⟩ := mem_range_indices.mp member
  have first : range.start * t.pieceSize ≤ i * t.pieceSize := Nat.mul_le_mul_right _ low
  have last : (i + 1) * t.pieceSize ≤ range.stop * t.pieceSize := Nat.mul_le_mul_right _ high
  have next : (i + 1) * t.pieceSize = i * t.pieceSize + t.pieceSize := by ring
  simp only [partOf,rangeOf,rangeLength,pieceRangeBytes,pieceOf,pieceBytes]
  rw [List.drop_take,List.drop_drop,List.take_take]
  congr 1
  · omega
  · congr 1
    omega
theorem rangeOf_length (t : Transfer) {object : List UInt8} (length : object.length = t.size) (range : PieceRange) :
    (t.rangeOf object range).length = t.rangeLength range := by
  simp only [rangeOf,rangeLength,pieceRangeBytes,List.length_take,List.length_drop,length]
  omega

section
variable {sha256 : List UInt8 → Digest} {object : List UInt8}

theorem Genuine.same (genuine : Genuine object t) (fixed : t'.fixed = t.fixed) : Genuine object t' := by
  have size : t'.size = t.size := congrArg Fixed.size fixed
  have piece : t'.pieceSize = t.pieceSize := congrArg Fixed.pieceSize fixed
  have data : t'.data = t.data := congrArg Fixed.data fixed
  intro i done
  rw [verified_same (congrArg Fixed.verified fixed)] at done
  rw [size,piece,data]
  exact genuine i done
theorem checkPiece_genuine {bytes : List UInt8} {c : Checked} (sound : Sound sha256 c.transfer)
    (genuine : Genuine object c.transfer) (whole : bytes.length = c.transfer.rangeLength range)
    (member : i ∈ range.indices) (real : c.transfer.hashes[i]? = some (sha256 (c.transfer.partOf range bytes i)) →
      c.transfer.partOf range bytes i = pieceOf c.transfer.size c.transfer.pieceSize i object) :
    Genuine object (checkPiece sha256 bytes (c.transfer.pieceRangeBytes range).1 c i).transfer := by
  rcases checkPiece_cases sha256 bytes (c.transfer.pieceRangeBytes range).1 c i with
    ⟨_,same⟩ | ⟨_,good,same⟩ | ⟨_,same⟩
  · rw [same]; exact genuine
  · rw [same]
    obtain ⟨t,bad,fresh⟩ := c
    dsimp only at sound genuine whole good real ⊢
    have written := real good
    have inside : i < t.verified.length := by
      rw [← sound.count]
      exact (List.getElem?_eq_some_iff.mp good).1
    have low := sound.fits i inside
    have fits := t.partOf_length whole member
    intro j done
    rw [isVerified_set _ _ _ _ inside] at done
    show pieceOf t.size t.pieceSize j (writePiece t.size t.pieceSize i t.data (t.partOf range bytes i)) = _
    by_cases same : j = i
    · subst same
      rw [pieceOf_write_self sound.data low fits]
      exact written
    · rw [pieceOf_write_other sound.data low fits same]
      exact genuine j (by simpa [same] using done)
  · rw [same]; exact genuine
theorem checkPiece_frame (sha256 : List UInt8 → Digest) (bytes : List UInt8) (start : Nat) (c : Checked) (i : Nat) :
    (checkPiece sha256 bytes start c i).transfer.object = c.transfer.object := by
  obtain ⟨frame,length⟩ := checkPieces_frame sha256 bytes start [i] c
  rw [List.foldl_cons,List.foldl_nil] at frame length
  rw [frame]
  simp only [Transfer.object,length]
theorem partOf_same (same : t'.object = t.object) (range : PieceRange) (bytes : List UInt8) (i : Nat) :
    t'.partOf range bytes i = t.partOf range bytes i ∧ t'.rangeLength range = t.rangeLength range ∧
      (t'.pieceRangeBytes range) = t.pieceRangeBytes range := by
  have size : t'.size = t.size := congrArg Object.size same
  have piece : t'.pieceSize = t.pieceSize := congrArg Object.pieceSize same
  simp only [partOf,rangeLength,pieceRangeBytes,size,piece,and_self]
theorem checkPieces_genuine {bytes : List UInt8} (pieces : List Nat) : ∀ {c : Checked},
    Sound sha256 c.transfer → Genuine object c.transfer → bytes.length = c.transfer.rangeLength range →
    (∀ i ∈ pieces, i ∈ range.indices) →
    (∀ i ∈ pieces, c.transfer.hashes[i]? = some (sha256 (c.transfer.partOf range bytes i)) →
      c.transfer.partOf range bytes i = pieceOf c.transfer.size c.transfer.pieceSize i object) →
    Genuine object (pieces.foldl (checkPiece sha256 bytes (c.transfer.pieceRangeBytes range).1) c).transfer := by
  induction pieces with
  | nil => intro c _ genuine _ _ _; exact genuine
  | cons i rest ih =>
    intro c sound genuine whole listed real
    have one := checkPiece_sound sound whole (listed i (by simp))
    have more := checkPiece_genuine sound genuine whole (listed i (by simp)) (real i (by simp))
    have frame := checkPiece_frame sha256 bytes (c.transfer.pieceRangeBytes range).1 c i
    rw [List.foldl_cons]
    generalize checkPiece sha256 bytes (c.transfer.pieceRangeBytes range).1 c i = next at one more frame
    have size : next.transfer.size = c.transfer.size := congrArg Object.size frame
    have piece : next.transfer.pieceSize = c.transfer.pieceSize := congrArg Object.pieceSize frame
    have hashes : next.transfer.hashes = c.transfer.hashes := congrArg Object.hashes frame
    rw [← (partOf_same frame range bytes 0).2.2]
    refine ih one more (whole.trans (partOf_same frame range bytes 0).2.1.symm)
      (fun j member => listed j (by simp [member])) ?_
    intro j member
    rw [(partOf_same frame range bytes j).1,size,piece,hashes]
    exact real j (by simp [member])
theorem checkPieces_good {bytes : List UInt8} (pieces : List Nat) : ∀ {c : Checked},
    (∀ i ∈ pieces, c.transfer.hashes[i]? = some (sha256 (c.transfer.partOf range bytes i))) →
    (pieces.foldl (checkPiece sha256 bytes (c.transfer.pieceRangeBytes range).1) c).bad = c.bad := by
  induction pieces with
  | nil => intro c _; rfl
  | cons i rest ih =>
    intro c real
    have frame := checkPiece_frame sha256 bytes (c.transfer.pieceRangeBytes range).1 c i
    have kept : (checkPiece sha256 bytes (c.transfer.pieceRangeBytes range).1 c i).bad = c.bad := by
      have digest := real i (by simp)
      unfold partOf at digest
      unfold checkPiece
      dsimp only
      rw [if_pos digest]
      split_ifs <;> rfl
    rw [List.foldl_cons,← kept]
    generalize checkPiece sha256 bytes (c.transfer.pieceRangeBytes range).1 c i = next at frame
    have hashes : next.transfer.hashes = c.transfer.hashes := congrArg Object.hashes frame
    rw [← (partOf_same frame range bytes 0).2.2]
    refine ih (fun j member => ?_)
    rw [(partOf_same frame range bytes j).1,hashes]
    exact real j (by simp [member])
theorem checkPieces_verified {bytes : List UInt8} {start : Nat} (pieces : List Nat) (c : Checked)
    (done : ∀ i ∈ pieces, c.transfer.isVerified i = true) : pieces.foldl (checkPiece sha256 bytes start) c = c := by
  induction pieces with
  | nil => rfl
  | cons i rest ih =>
    have one : checkPiece sha256 bytes start c i = c := by
      unfold checkPiece
      dsimp only
      rw [if_pos (done i (by simp))]
    rw [List.foldl_cons,one]
    exact ih (fun j member => done j (by simp [member]))
/-- A response of the right length to a mixed transfer: the buffer stays sound, and
    genuine if no part of the response is taken for another piece. -/
theorem response_genuine (mixed : t.peerOnly = false) (sound : Sound sha256 t) (genuine : Genuine object t)
    (s : Source) {bytes : List UInt8} (whole : bytes.length = t.rangeLength range)
    (real : ∀ i ∈ range.indices, t.hashes[i]? = some (sha256 (t.partOf range bytes i)) →
      t.partOf range bytes i = pieceOf t.size t.pieceSize i object) :
    Sound sha256 (response sha256 t s range bytes).transfer ∧
      Genuine object (response sha256 t s range bytes).transfer := by
  have taken : Sound sha256 { t with lanes := t.lanes.modify s (fun lane => lane.answered range) } :=
    sound.works (modify_works t s (fun lane => lane.answered range)) (fun only => by
      have peersOnly : t.peerOnly = true := only
      rw [mixed] at peersOnly
      cases peersOnly)
  exact ⟨checkPieces_sound (c := ⟨_,false,false⟩) range.indices taken whole (fun _ member => member),
    checkPieces_genuine (c := ⟨_,false,false⟩) range.indices taken genuine whole (fun _ member => member) real⟩

theorem credited_works (c : Checked) (source : Source) : Thins c.transfer (credited c source) ∧
    Works c.transfer (credited c source) := by
  unfold credited
  split_ifs
  · exact ⟨fun s lane found => ⟨lane,found,List.Sublist.refl _⟩,endProbe_works c.transfer source⟩
  · exact ⟨fun s lane found => ⟨lane,found,List.Sublist.refl _⟩,Works.refl c.transfer⟩

/-! ### One answer -/

/-- An answer to a request in flight with the bytes of its range of the object. -/
inductive Answers (object : List UInt8) (t : Transfer) : Event → Prop
  | answer {now : Nat} {s : Source} {lane : Lane} {range : PieceRange} {sent : Nat} (found : t.lanes.get? s = some lane)
      (flying : (range,sent) ∈ lane.inFlight) : Answers object t (.delivered now s range (t.rangeOf object range))

theorem answered_wasted {lane : Lane} {sent : Nat}
    (found : t.lanes.get? s = some lane) (flying : (range,sent) ∈ lane.inFlight) (some : range.start < range.stop)
    (done : ∀ i ∈ range.indices, t.isVerified i = true) :
    let t' := { t with lanes := t.lanes.modify s (fun lane => lane.answered range) }
    t'.wasted s < t.wasted s := by
  intro t'
  have after : t'.lanes.get? s = Option.some (lane.answered range) := by
    show (t.lanes.modify s _).get? s = _
    rw [OrderedMap.get?_modify_self,found]
    rfl
  rw [wasted_found after,wasted_found found]
  show ((indices (lane.answered range).work).filter t.isVerified).length < _
  obtain ⟨⟨asked,here⟩,first,rest,_,own,split,erased⟩ :=
    List.exists_of_eraseP (p := fun sent => decide (sent.1 = range)) flying (by simp)
  have same : asked = range := by simpa using own
  subst same
  have whole : (asked.indices.filter t.isVerified).length = asked.stop - asked.start := by
    rw [List.filter_eq_self.mpr done]
    simp [PieceRange.indices]
  have left : (lane.answered asked).inFlight = first ++ rest := erased
  simp only [Lane.work,left,show (lane.answered asked).queue = lane.queue from rfl,split,List.map_append,List.map_cons,
    indices_append,indices_cons,List.filter_append,List.length_append,whole]
  omega
theorem Genuine.whole (genuine : Genuine object t) (sound : Sound sha256 t)
    (complete : t.verified.all id = true) (length : object.length = t.object.size)
    (covers : t.object.size ≤ t.object.count * t.object.pieceSize) : t.data = object :=
  pieces_determine sound.data length covers (fun i inside => genuine i (all_verified complete inside))
/-- An answer delivers the object, or verifies a piece, or leaves less waste. -/
theorem answer_advances (ready : Ready t) (mixed : t.peerOnly = false) (sound : Sound sha256 t)
    (genuine : Genuine object t) (committed : t.object.Matches sha256 object)
    (covers : t.object.size ≤ t.object.count * t.object.pieceSize) {e : Event} (answers : Answers object t e) :
    .deliver object ∈ (handle sha256 t e).commands ∨
      ((handle sha256 t e).finished = false ∧ Genuine object (handle sha256 t e) ∧
        ((handle sha256 t e).missing < t.missing ∨
          (handle sha256 t e).missing = t.missing ∧ (handle sha256 t e).waste < t.waste)) := by
  obtain ⟨length,digests,whole⟩ := committed
  cases answers with
  | @answer now s lane range sent found flying =>
    have early : t.peerOnly = true → now < t.floorAt := fun only => by rw [mixed] at only; cases only
    obtain ⟨frame,count,some,inside,grows,others,allGood,_⟩ :=
      response_facts sha256 ready.orderly found flying (t.rangeOf object range)
    have size := rangeOf_length t length range
    have good : (response sha256 t s range (t.rangeOf object range)).bad = false := by
      refine checkPieces_good (c := ⟨{ t with lanes := t.lanes.modify s (fun lane => lane.answered range) },
        false,false⟩)
        range.indices (fun i member => ?_)
      have part := partOf_rangeOf t object member
      show t.hashes[i]? = Option.some (sha256 (t.partOf range (t.rangeOf object range) i))
      rw [part]
      exact digests i (lt_of_lt_of_le (mem_range_indices.mp member).2 inside)
    obtain ⟨checked,real⟩ :=
      response_genuine mixed sound genuine s size (fun i member _ => partOf_rangeOf t object member)
    obtain ⟨sent',first,same⟩ := answered_accepts sha256 ready found flying early size good
    have ready' := response_ready sha256 ready found flying (t.rangeOf object range)
    obtain ⟨acts,ended⟩ := accept_split sha256 ready' (response_used sha256 ready found flying _ early) sent' first
      (t.rangeLength range)
    rw [same]
    generalize accepted (response sha256 t s range (t.rangeOf object range)) now s sent' first (t.rangeLength range) = u
      at acts ended
    obtain ⟨thins,credit⟩ := credited_works (response sha256 t s range (t.rangeOf object range)) s
    have works := credit.trans acts.works
    have spent :=
      fun source => (acts.wasted (credited_ready ready' s) source).trans (thins.wasted credit.verified source)
    have uReady := acts.ready (credited_ready ready' s)
    have mode : u.peerOnly = false := by rw [works.peerOnly,frame]; exact mixed
    rcases ended with ⟨complete,concluded⟩ | ⟨_,goes⟩
    · left
      have uSound : Sound sha256 u := checked.works works (fun only => by rw [mode] at only; cases only)
      have object' : u.object = t.object := by
        rw [works.object,frame]
        simp only [Transfer.object,count]
      have equal : u.data = object := by
        exact (real.same works.fixed).whole uSound complete (by rw [object']; exact length)
          (by rw [object']; exact covers)
      rw [concluded]
      unfold finish
      have digest : u.whole = t.whole := congrArg Object.whole object'
      rw [if_neg (not_not.mpr (by rw [equal,digest]; exact whole))]
      simp [push,equal]
    · right
      rw [goes]
      have issued := issue_gives uReady now s
      have refilled : Gives (u.issue now s) ((u.issue now s).refill now) := by
        unfold refill
        rw [if_neg (by simp [issued.works.peerOnly,mode])]
        exact rebalanceOrigin_acts (issued.ready uReady) now
      have last : Gives u ((u.issue now s).refill now) := Relation.ReflTransGen.head issued refilled
      generalize (u.issue now s).refill now = t' at last
      have all := works.trans last.works
      refine ⟨all.finished.trans (by rw [frame]; exact ready.running),real.same all.fixed,?_⟩
      rw [missing_same all.verified]
      by_cases done : ∀ i ∈ range.indices, t.isVerified i = true
      · right
        have kept : response sha256 t s range (t.rangeOf object range) =
            ⟨{ t with lanes := t.lanes.modify s (fun lane => lane.answered range) },false,false⟩ :=
          checkPieces_verified range.indices _ done
        have fewer : ∀ source, t'.wasted source ≤
            ({ t with lanes := t.lanes.modify s (fun lane => lane.answered range) } : Transfer).wasted source := by
          intro source
          have steps := (last.wasted uReady source).trans (spent source)
          rwa [kept] at steps
        refine ⟨by rw [kept]; rfl,waste_lt (fun source => ?_) s ?_⟩
        · exact (fewer source).trans ((answered_thins t s range).wasted rfl source)
        · exact lt_of_le_of_lt (fewer s) (answered_wasted found flying some done)
      · left
        simp only [not_forall,Bool.not_eq_true] at done
        obtain ⟨i,member,was⟩ := done
        exact missing_lt count grows (lt_of_lt_of_le (mem_range_indices.mp member).2 inside) was (allGood good i member)

/-! ### Before the honest answers -/

/-- No part of the bytes of an answer has the digest of a piece without being that piece. -/
def Unforged (sha256 : List UInt8 → Digest) (o : Object) (object : List UInt8) (e : Event) : Prop :=
  ∀ now s range bytes, e = .delivered now s range bytes → ∀ part, part <:+: bytes → ∀ i < o.count,
    sha256 part = sha256 (pieceOf o.size o.pieceSize i object) → part = pieceOf o.size o.pieceSize i object

theorem handle_genuine (ready : Ready t) (busy : t.peerOnly = false → ∀ s, Busy t s)
    (mixed : t.peerOnly = false) (sound : Sound sha256 t) (genuine : Genuine object t)
    (committed : t.object.Matches sha256 object) {e : Event} (later : e.starts = false)
    (unforged : Unforged sha256 t.object object e) (running : (handle sha256 t e).finished = false) :
    Genuine object (handle sha256 t e) := by
  have answered : ∀ {now source lane sent range bytes}, t.lanes.get? source = some lane → (range,sent) ∈ lane.inFlight →
      e = .delivered now source range bytes → bytes.length = t.rangeLength range →
        Genuine object (response sha256 t source range bytes).transfer := by
    intro now source lane sent range bytes found flying called length
    obtain ⟨_,_,_,inside,_⟩ := response_facts sha256 ready.orderly found flying bytes
    refine (response_genuine mixed sound genuine source length (fun i member digest => ?_)).2
    have within : i < t.object.count := lt_of_lt_of_le (mem_range_indices.mp member).2 inside
    have digest' : t.object.hashes[i]? = some (sha256 (t.partOf range bytes i)) := digest
    rw [committed.2.1 i within] at digest'
    exact unforged now source range bytes called _ (partOf_within t range bytes i) i within
      (Option.some.inj digest').symm
  have entered : ∀ u, Entered sha256 t e u → Genuine object u := by
    intro u entered
    cases entered with
    | tick | progress | late | unasked | short | unused => exact genuine
    | fails | wrong => exact genuine.same (retire_works t _).fixed
    | spoiled found flying _ length => exact answered found flying rfl length
    | @answered _ source _ _ range bytes found flying _ length =>
      exact (answered found flying rfl length).same (credited_works _ source).2.fixed
  obtain ⟨w,kept,_,ending⟩ := handle_induction sha256 ready busy later (P := Genuine object) entered
    (fun u v _ genuine act => genuine.same act.works.fixed)
    (fun now _ _ ready genuine => genuine.same (endgame_ready ready now).2.fixed)
  rcases ending.cases with concluded | same
  · rw [concluded] at running
    cases running
  · rw [same]
    exact kept
/-- A running mixed transfer of an object, between two calls, whose verified pieces are
    those of the object. -/
structure Faithful (sha256 : List UInt8 → Digest) (object : List UInt8) (n : Nat) (t : Transfer) : Prop where
  rested : Rested n t
  mixed : t.peerOnly = false
  sound : Sound sha256 t
  genuine : Genuine object t
  committed : t.object.Matches sha256 object
  covers : t.object.size ≤ t.object.count * t.object.pieceSize

theorem Genuine.drained (genuine : Genuine object t) : Genuine object t.drainCommands.2 := genuine
theorem Faithful.answered {n : Nat} {t : Transfer} (faithful : Faithful sha256 object n t) {e : Event}
    (answers : Answers object t e) : .deliver object ∈ (handle sha256 t e).commands ∨
      (Faithful sha256 object n (handle sha256 t e).drainCommands.2 ∧ ((handle sha256 t e).missing < t.missing ∨
        (handle sha256 t e).missing = t.missing ∧ (handle sha256 t e).waste < t.waste)) := by
  have later : e.starts = false := by cases answers; rfl
  rcases answer_advances faithful.rested.ready faithful.mixed faithful.sound faithful.genuine faithful.committed
    faithful.covers answers with delivered | ⟨running,genuine,less⟩
  · exact .inl delivered
  right
  have ground := handle_ground sha256 faithful.rested.ready faithful.rested.busy later
  have same : (handle sha256 t e).object = t.object := congrArg Ground.object ground
  refine ⟨⟨?_,(Ground.mode ground).trans faithful.mixed,?_,genuine.drained,?_,?_⟩,less⟩
  · refine (drained_between (handle_between sha256 faithful.rested later)).resolve_left (fun concluded => ?_)
    have concluded' : (handle sha256 t e).finished = true := concluded
    rw [running] at concluded'
    cases concluded'
  · cases handle_outcome faithful.rested.ready.running faithful.sound e with
    | runs _ _ sound => exact drained_sound sound
    | ends _ concluded => rw [running] at concluded; cases concluded
  · have committed := faithful.committed
    rw [← same] at committed
    exact committed
  · have covers := faithful.covers
    rw [← same] at covers
    exact covers
theorem Faithful.waits {n : Nat} {t : Transfer} (faithful : Faithful sha256 object n t) : ∃ e, Answers object t e := by
  obtain ⟨s,lane,found,_,flying⟩ := (faithful.rested.covered faithful.mixed).outstanding
  obtain ⟨⟨range,sent⟩,member⟩ := List.exists_mem_of_ne_nil _ flying
  exact ⟨.delivered 0 s range (t.rangeOf object range),.answer found member⟩

/-! ### Honest answers to the end -/

/-- One more of the outstanding requests is answered. -/
def Honest (sha256 : List UInt8 → Digest) (object : List UInt8) (s s' : Shell) : Prop :=
  ∃ e, Answers object s.transfer e ∧ s' = Shell.step sha256 s e
/-- Answers from a faithful transfer on, for as long as there is one to give: after some
    of them the object is delivered. -/
theorem faithful_delivers : ∀ (missing waste : Nat) (s : Shell), Faithful sha256 object n s.transfer →
    s.transfer.missing = missing → s.transfer.waste = waste → ∀ run : Nat → Shell, run 0 = s →
      (∀ k, (∃ s', Honest sha256 object (run k) s') → Honest sha256 object (run k) (run (k + 1))) →
        ∃ k, (∀ j < k, Honest sha256 object (run j) (run (j + 1))) ∧ .deliver object ∈ (run k).emitted := by
  intro missing
  induction missing using Nat.strong_induction_on with
  | _ missing fewer =>
    intro waste
    induction waste using Nat.strong_induction_on with
    | _ waste less =>
      intro s faithful left idle run begins goes
      obtain ⟨waiting,answer⟩ := faithful.waits
      have first : Honest sha256 object (run 0) (run 1) :=
        goes 0 ⟨Shell.step sha256 s waiting,waiting,by rw [begins]; exact answer,by rw [begins]⟩
      obtain ⟨e,answers,next⟩ := first
      rw [begins] at answers next
      -- Later answers are those of the run without its first step.
      have shifted : (∃ k, (∀ j < k, Honest sha256 object (run (j + 1)) (run (j + 1 + 1))) ∧
          .deliver object ∈ (run (k + 1)).emitted) →
            ∃ k, (∀ j < k, Honest sha256 object (run j) (run (j + 1))) ∧ .deliver object ∈ (run k).emitted := by
        rintro ⟨k,before,delivered⟩
        refine ⟨k + 1,fun j below => ?_,delivered⟩
        cases j with
        | zero => exact ⟨e,by rw [begins]; exact answers,by rw [begins]; exact next⟩
        | succ j => exact before j (by omega)
      rcases faithful.answered answers with delivered | ⟨faithful',progress⟩
      · refine ⟨1,fun j below => ?_,?_⟩
        · obtain rfl : j = 0 := by omega
          exact ⟨e,by rw [begins]; exact answers,by rw [begins]; exact next⟩
        · rw [next]
          exact List.mem_append_right _ delivered
      · have same : (run 1).transfer = (handle sha256 s.transfer e).drainCommands.2 := by rw [next]; rfl
        rw [← same] at faithful'
        rw [left,idle] at progress
        apply shifted
        rcases progress with down | ⟨level,down⟩
        · exact fewer _ down _ (run 1) faithful' (by rw [same]; rfl) rfl (fun k => run (k + 1))
            rfl (fun k => goes (k + 1))
        · exact less _ down (run 1) faithful' (by rw [same]; exact level) (by rw [same]; rfl) (fun k => run (k + 1)) rfl
            (fun k => goes (k + 1))
theorem run_genuine {o : Object} (newborn : Newborn n t) (mixed : t.peerOnly = false)
    (streams : Streams sha256 o ⟨t,[]⟩) (committed : o.Matches sha256 object) {first : Event} (begins : Begins t first)
    {events : List Event} (later : ∀ e ∈ events, e.starts = false) (unforged : ∀ e ∈ events, Unforged sha256 o object e)
    (running : (after sha256 t (first :: events)).finished =
      false) : Genuine object (after sha256 t (first :: events)) := by
  have same : t.object = o := streams.object
  have only : o.peerOnly = false := by rw [← same]; exact mixed
  have held : Between n (after sha256 t (first :: events)) ∧
      ((after sha256 t (first :: events)).finished = false → Genuine object (after sha256 t (first :: events))) := by
    refine run_induction sha256 (P := fun u => Between n u ∧ (u.finished = false → Genuine object u))
      (C := fun u e => u.object = o ∧ (u.finished = false → Sound sha256 u) ∧ Unforged sha256 o object e)
      ⟨drained_between (begins_between sha256 newborn begins),fun going => ?_⟩ ?_ events (fun pre e post split => ?_)
    · obtain ⟨u,opened,start⟩ := begins_opened sha256 newborn begins
      obtain ⟨w,acts,ending⟩ := (opened.course first.roster.1).ending sha256
      rw [← start] at ending
      have bare : Genuine object u := fun i done => by rw [opened.fresh i] at done; cases done
      rcases ending.cases with concluded | ran
      · have concluded' : (handle sha256 t first).drainCommands.2.finished = true := concluded
        rw [going] at concluded'
        cases concluded'
      · rw [ran]
        exact (bare.same acts.works.fixed).drained
    · rintro u e ⟨concluded | rested,genuine⟩ starts ⟨object',sound,fair⟩
      · rw [handle_finished sha256 concluded starts]
        exact ⟨.inl concluded,fun going => absurd concluded (by rw [show u.finished = false from going]; simp)⟩
      · refine ⟨drained_between (handle_between sha256 rested starts),fun going => ?_⟩
        have mode : u.peerOnly = false := (congrArg Object.peerOnly object').trans only
        exact (handle_genuine rested.ready rested.busy mode (sound rested.ready.running) (genuine rested.ready.running)
          (by rw [object']; exact committed) starts (by rw [object']; exact fair) going).drained
    · have part := run_streams (first :: pre) streams
      exact ⟨later e (by simp [split]),part.object,fun going => (part.running going).1,unforged e (by simp [split])⟩
  exact held.2 running
/-- A mixed transfer of an object, started and then told anything that forges none of its
    pieces. From wherever it still runs, let its outstanding requests be answered with
    the bytes of the object, one after another in any order, for as long as there is
    one: after some of these answers the object is delivered. -/
theorem honest_delivers {config : TransferConfig} {size : Nat} {digest : String} {pieces : List String}
    {deadline : Nat} {t : Transfer} (made : new config size digest pieces deadline = some t ∨
      (new config size digest pieces deadline).bind withExclusiveOrigin = some t) {first : Event}
    (begins : Begins t first) (events : List Event) (later : ∀ e ∈ events, e.starts = false)
    (length : object.length = size) (whole : decode digest = some (sha256 object))
    (each : ∀ (i : Nat) (inside : i < pieces.length),
      decode pieces[i] = some (sha256 (pieceOf size (commitmentPieceSize size) i object)))
    (unforged : ∀ now s range bytes, .delivered now s range bytes ∈ events → ∀ part, part <:+: bytes →
      ∀ i < pieces.length, sha256 part = sha256 (pieceOf size (commitmentPieceSize size) i object) →
        part = pieceOf size (commitmentPieceSize size) i object)
    (running : (after sha256 t (first :: events)).finished = false) (run : Nat → Shell)
    (starts : run 0 = Shell.run sha256 ⟨t,[]⟩ (first :: events))
    (goes : ∀ k, (∃ s', Honest sha256 object (run k) s') → Honest sha256 object (run k) (run (k + 1))) :
    ∃ k, (∀ j < k, Honest sha256 object (run j) (run (j + 1))) ∧ .deliver object ∈ (run k).emitted := by
  have facts : Newborn pieces.length t ∧ t.peerOnly = false ∧ pieceCount size = some pieces.length := by
    rcases made with plain | exclusive
    · exact ⟨(new_newborn plain).1,(new_newborn plain).2.1,new_counted plain⟩
    · obtain ⟨_,plain,_⟩ := Option.bind_eq_some_iff.mp exclusive
      exact ⟨(exclusive_newborn exclusive).1,(exclusive_newborn exclusive).2.1,new_counted plain⟩
  obtain ⟨newborn,mixed,counted⟩ := facts
  obtain ⟨o,streams,size',piece,count,digest',hashes⟩ := made_streams sha256 (made.imp id .inl)
  have committed : o.Matches sha256 object := by
    refine ⟨length.trans size'.symm,fun i inside => ?_,?_⟩
    · rw [count] at inside
      rw [hashes i inside,each i inside,size',piece]
    · rw [whole] at digest'
      exact (Option.some.inj digest').symm
  have fair : ∀ e ∈ events, Unforged sha256 o object e := by
    rintro e member now s range bytes rfl
    rw [size',piece,count]
    exact unforged now s range bytes member
  have ended := run_streams (first :: events) streams
  have object' : (after sha256 t (first :: events)).object = o := ended.object
  have rested := (run_between sha256 newborn begins later).resolve_left (by rw [running]; simp)
  have faithful : Faithful sha256 object pieces.length (after sha256 t (first :: events)) := by
    refine ⟨rested,?_,(ended.running running).1,run_genuine newborn mixed streams committed begins later fair running,
      by rw [object']; exact committed,?_⟩
    · have same : t.object = o := streams.object
      exact (congrArg Object.peerOnly (object'.trans same.symm)).trans mixed
    · rw [object',size',count,piece]
      exact (pieceCount_covers counted).1
  exact faithful_delivers _ _ _ faithful rfl rfl run starts goes

/-- The digest of one zero byte. -/
private def zeroByteDigest : String := "6e340b9cffb37a989ca544e6bb780a2c78901d3fb33738768511a30617afa01d"
/-- A digest that is right for one zero byte, and which nothing else has. -/
private def zeroByteSha256 (bytes : List UInt8) : Digest := if bytes = [0] then (decode zeroByteDigest).getD [] else []
private def zeroByte : Option Transfer := new ⟨1,0⟩ 1 zeroByteDigest [zeroByteDigest] 1000
private def peerAndOrigin : Event := .start 0 [⟨.peer 1,some 1,some 65536⟩] ⟨.origin,some 1,some 65536⟩ none none []
private def badByte : Event := .delivered 1 (.peer 1) ⟨0,1⟩ [7]
private def goodByte : Event := .delivered 2 .origin ⟨0,1⟩ [0]
/-- The one answer that is left to give. -/
private def lastAnswer (t : Transfer) : Nat → Shell
  | 0 => Shell.run zeroByteSha256 ⟨t,[]⟩ [peerAndOrigin,badByte]
  | _ + 1 => Shell.run zeroByteSha256 ⟨t,[]⟩ [peerAndOrigin,badByte,goodByte]
/-- A peer sends a bad byte, and origin then sends the right one. -/
theorem honest_delivers_after_ban : ∃ t, new ⟨1,0⟩ 1 zeroByteDigest [zeroByteDigest] 1000 = some t ∧
    ∃ k, (∀ j < k, Honest zeroByteSha256 [0] (lastAnswer t j) (lastAnswer t (j + 1))) ∧
      .deliver [0] ∈ (lastAnswer t k).emitted := by
  obtain ⟨t,made⟩ := Option.isSome_iff_exists.mp (by decide +kernel : zeroByte.isSome = true)
  have evaluated : zeroByte.map (fun t => ((after zeroByteSha256 t [peerAndOrigin,badByte]).finished,
      ((after zeroByteSha256 t [peerAndOrigin,badByte]).lanes.get? .origin).map (fun lane => lane.inFlight.map (·.1)),
      rangeOf (after zeroByteSha256 t [peerAndOrigin,badByte]) [0] ⟨0,1⟩,
      (after zeroByteSha256 t [peerAndOrigin,badByte,goodByte]).finished)) = some (false,some [⟨0,1⟩],[0],true) := by
    decide +kernel
  rw [made] at evaluated
  have evaluated := Option.some.inj evaluated
  simp only [Prod.mk.injEq] at evaluated
  obtain ⟨running,flight,bytes,concluded⟩ := evaluated
  have begins : Begins t peerAndOrigin := .start (fun _ => rfl)
  refine ⟨t,made,honest_delivers (.inl made) begins [badByte] (by simp [Event.starts,badByte])
    rfl (by decide +kernel) ?_ ?_
    running (lastAnswer t) rfl ?_⟩
  · intro i inside
    obtain rfl : i = 0 := by simpa using inside
    exact (by decide +kernel : decode zeroByteDigest = some (zeroByteSha256 (pieceOf 1 (commitmentPieceSize 1) 0 [0])))
  · intro now s range bytes _ part _ i inside same
    obtain rfl : i = 0 := by simpa using inside
    have piece : pieceOf 1 (commitmentPieceSize 1) 0 [0] = [0] := by decide +kernel
    rw [piece] at same ⊢
    by_contra other
    unfold zeroByteSha256 at same
    rw [if_neg other] at same
    exact absurd same (by decide +kernel)
  · rintro (_ | k)
    · intro _
      obtain ⟨lane,found,ranges⟩ := Option.map_eq_some_iff.mp flight
      obtain ⟨⟨range,sent⟩,listed⟩ := List.length_eq_one_iff.mp (show lane.inFlight.length = 1 by
        simpa using congrArg List.length ranges)
      have asked : range = ⟨0,1⟩ := by simpa [listed] using ranges
      subst asked
      have flying : (⟨0,1⟩,sent) ∈ lane.inFlight := by simp [listed]
      have answer : Answers [0] _ (.delivered 2 .origin ⟨0,1⟩ _) := .answer found flying
      rw [bytes] at answer
      exact ⟨goodByte,answer,rfl⟩
    · rintro ⟨_,e,answers,_⟩
      have none := run_over zeroByteSha256 (new_newborn made).1 begins
        (show ∀ e ∈ [badByte,goodByte], e.starts = false by simp [Event.starts,badByte,goodByte]) concluded
      cases answers with
      | answer found flying =>
        have work := none _ _ found
        rw [List.map_eq_nil_iff.mp (List.append_eq_nil_iff.mp work).1] at flying
        cases flying
end
end Transfer
end RelaySwarm.Transfers
