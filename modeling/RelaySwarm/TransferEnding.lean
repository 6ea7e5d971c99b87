import RelaySwarm.TransferPeerOnly

/-!
How a transfer ends. A call on a running transfer leaves it running and says
nothing that ends it, or says exactly one `Deliver` or `Fail`, last (`Outcome`);
a call on a finished one says nothing (`handle_over`). Verified pieces match the
commitment and are never written again (`Sound`), so what is delivered is the
committed object (`run_ends_once`).
-/
namespace RelaySwarm.Transfers
open Pieces Planning
namespace Transfer

variable {t t' : Transfer}
structure Object where
  size : Nat
  pieceSize : Nat
  hashes : List Digest
  whole : Digest
  count : Nat
  peerOnly : Bool
def object (t : Transfer) : Object := ⟨t.size,t.pieceSize,t.hashes,t.whole,t.verified.length,t.peerOnly⟩
theorem Works.object {t t' : Transfer} (works : Works t t') : t'.object = t.object := by
  have fixed := works.fixed
  simp only [Transfer.fixed,Fixed.mk.injEq] at fixed
  obtain ⟨_,only,_,_,size,piece,hashes,whole,_,_,verified⟩ := fixed
  simp only [Transfer.object,only,size,piece,hashes,whole,verified]

section
variable (sha256 : List UInt8 → Digest)

/-- The bytes are the object: its length, every piece and the whole match. -/
def Object.Matches (o : Object) (bytes : List UInt8) : Prop :=
  bytes.length = o.size ∧ (∀ i < o.count, o.hashes[i]? = some (sha256 (pieceOf o.size o.pieceSize i bytes))) ∧
    sha256 bytes = o.whole
/-- A running transfer's buffer: every verified piece matches the commitment. -/
structure Sound (t : Transfer) : Prop where
  data : t.data.length = t.size
  count : t.hashes.length = t.verified.length
  fits : ∀ i < t.verified.length, i * t.pieceSize ≤ t.size
  pieces : ∀ i, t.isVerified i = true → t.hashes[i]? = some (sha256 (pieceOf t.size t.pieceSize i t.data))
  tidy : t.peerOnly = true → Tidy t
/-- A call on a running transfer: it runs on and said nothing that ends it, or it
    ended with its last word. -/
inductive Outcome (t t' : Transfer) : Prop
  | runs (object : t'.object = t.object) (running : t'.finished = false) (sound : Sound sha256 t')
      (cs : List Command) (told : t'.commands = t.commands ++ cs) (plain : ∀ c ∈ cs, c.ends = false)
  | ends (object : t'.object = t.object) (concluded : t'.finished = true)
      (cs : List Command) (last : Command) (told : t'.commands = t.commands ++ cs ++ [last])
      (plain : ∀ c ∈ cs, c.ends = false) (ends : last.ends = true)
      (good : ∀ bytes, last = .deliver bytes → t.object.Matches sha256 bytes)

variable {sha256}

theorem Sound.works (sound : Sound sha256 t) (works : Works t t')
    (tidy : t'.peerOnly = true → Tidy t') : Sound sha256 t' := by
  have fixed := works.fixed
  simp only [Transfer.fixed,Fixed.mk.injEq] at fixed
  obtain ⟨_,_,_,_,size,piece,hashes,_,_,data,verified⟩ := fixed
  refine ⟨?_,?_,?_,?_,tidy⟩
  · rw [data,size]; exact sound.data
  · rw [hashes,verified]; exact sound.count
  · rw [verified,piece,size]; exact sound.fits
  · intro i done
    rw [works.isVerified] at done
    rw [hashes,size,piece,data]
    exact sound.pieces i done
theorem Outcome.after {t u t' : Transfer} (object : u.object = t.object)
    (told : ∃ cs, u.commands = t.commands ++ cs ∧ ∀ c ∈ cs, c.ends = false) (outcome : Outcome sha256 u t') :
    Outcome sha256 t t' := by
  obtain ⟨ds,said,quiet⟩ := told
  have joined : ∀ cs : List Command, (∀ c ∈ cs, c.ends = false) → ∀ c ∈ ds ++ cs, c.ends = false :=
    fun cs plain c member => (List.mem_append.mp member).elim (quiet c) (plain c)
  cases outcome with
  | runs object' running sound cs told plain =>
    exact .runs (object'.trans object) running sound (ds ++ cs) (by rw [told,said,List.append_assoc]) (joined cs plain)
  | ends object' concluded cs last told plain ends good =>
    refine .ends (object'.trans object) concluded (ds ++ cs) last (by rw [told,said]; simp) (joined cs plain) ends ?_
    rw [← object]
    exact good
theorem Works.outcome (works : Works t t') (running : t.finished = false) (sound : Sound sha256 t)
    (tidy : t'.peerOnly = true → Tidy t') : Outcome sha256 t t' := by
  obtain ⟨cs,told,plain⟩ := works.told
  exact .runs works.object (works.finished.trans running) (sound.works works tidy) cs told plain
theorem cancels_plain {c : Command} (member : c ∈ t.cancels) : c.ends = false := by
  obtain ⟨⟨source,lane⟩,_,same⟩ := List.mem_filterMap.mp member
  cases source with
  | origin => cases same
  | peer p =>
    dsimp only at same
    split_ifs at same
    cases same
    rfl
theorem fail_outcome (t : Transfer) : Outcome sha256 t t.fail :=
  .ends rfl rfl t.cancels .fail rfl (fun _ => cancels_plain) rfl (fun _ none => nomatch none)
/-- Once every piece is verified the transfer ends: it delivers the object, or
    fails because the whole does not match. -/
theorem finish_outcome (sound : Sound sha256 t) (complete : t.verified.all id = true) :
    Outcome sha256 t (t.finish sha256) := by
  unfold finish
  split_ifs with whole
  · exact fail_outcome t
  · refine .ends rfl rfl t.cancels (.deliver t.data) rfl (fun _ => cancels_plain) rfl ?_
    intro bytes same
    cases same
    refine ⟨sound.data,fun i inside => sound.pieces i ?_,not_not.mp whole⟩
    have inside' : i < t.verified.length := inside
    have done := List.all_eq_true.mp complete _ (List.getElem_mem inside')
    simpa [isVerified,inside'] using done

theorem failing_outcome (failing : ∃ u, Works t u ∧ t' = u.fail) : Outcome sha256 t t' := by
  obtain ⟨u,works,rfl⟩ := failing
  exact (fail_outcome u).after works.object works.told
theorem Stays.outcome (stays : Stays t t') (running : t.finished = false) (sound : Sound sha256 t) :
    Outcome sha256 t t' := stays.works.outcome running sound (fun _ => stays.tidy)

/-! ### Checking a response -/

theorem checkPiece_sound {bytes : List UInt8} {range : PieceRange} {c : Checked} (sound : Sound sha256 c.transfer)
    (whole : bytes.length = (c.transfer.pieceRangeBytes range).2 - (c.transfer.pieceRangeBytes range).1)
    {i : Nat} (member : i ∈ range.indices) :
    Sound sha256 (checkPiece sha256 bytes (c.transfer.pieceRangeBytes range).1 c i).transfer := by
  rcases checkPiece_cases sha256 bytes (c.transfer.pieceRangeBytes range).1 c i with
    ⟨_,same⟩ | ⟨_,good,same⟩ | ⟨_,same⟩
  · rw [same]; exact sound
  · rw [same]
    obtain ⟨t,bad,fresh⟩ := c
    dsimp only at sound whole good ⊢
    have inside : i < t.verified.length := by
      rw [← sound.count]
      exact (List.getElem?_eq_some_iff.mp good).1
    have low := sound.fits i inside
    obtain ⟨first,last⟩ := mem_range_indices.mp member
    set piece := (bytes.drop ((t.pieceRangeBytes ⟨i,i+1⟩).1 - (t.pieceRangeBytes range).1)).take
      ((t.pieceRangeBytes ⟨i,i+1⟩).2 - (t.pieceRangeBytes ⟨i,i+1⟩).1) with named
    have fits : piece.length = pieceBytes t.size t.pieceSize i := by
      have a : range.start * t.pieceSize ≤ i * t.pieceSize := Nat.mul_le_mul_right _ first
      have b : (i + 1) * t.pieceSize ≤ range.stop * t.pieceSize := Nat.mul_le_mul_right _ last
      have next : (i + 1) * t.pieceSize = i * t.pieceSize + t.pieceSize := by ring
      simp only [named,List.length_take,List.length_drop,whole,pieceRangeBytes,pieceBytes]
      omega
    have written : t.data.take (t.pieceRangeBytes ⟨i,i+1⟩).1 ++ piece ++ t.data.drop (t.pieceRangeBytes ⟨i,i+1⟩).2 =
        writePiece t.size t.pieceSize i t.data piece := rfl
    rw [written]
    refine ⟨writePiece_length sound.data low fits,by simpa using sound.count,by simpa using sound.fits,?_,?_⟩
    · intro j done
      rw [isVerified_set _ _ _ _ inside] at done
      dsimp only
      by_cases same : j = i
      · subst same
        rw [pieceOf_write_self sound.data low fits]
        exact good
      · rw [pieceOf_write_other sound.data low fits same]
        exact sound.pieces j (by simpa [same] using done)
    · intro only
      have tidy := sound.tidy only
      exact ⟨⟨by simpa using tidy.orderly.within,tidy.orderly.gone,tidy.orderly.keyed⟩,tidy.homeless,
        by simpa using tidy.pending⟩
  · rw [same]; exact sound
theorem checkPieces_sound {bytes : List UInt8} {range : PieceRange} (pieces : List Nat) : ∀ {c : Checked},
    Sound sha256 c.transfer →
      bytes.length = (c.transfer.pieceRangeBytes range).2 - (c.transfer.pieceRangeBytes range).1 →
      (∀ i ∈ pieces, i ∈ range.indices) →
        Sound sha256 (pieces.foldl (checkPiece sha256 bytes (c.transfer.pieceRangeBytes range).1) c).transfer := by
  induction pieces with
  | nil => intro c sound _ _; exact sound
  | cons i rest ih =>
    intro c sound whole listed
    have one := checkPiece_sound sound whole (listed i (by simp))
    have frame : (checkPiece sha256 bytes (c.transfer.pieceRangeBytes range).1 c i).transfer.pieceRangeBytes range =
        c.transfer.pieceRangeBytes range := by
      rcases checkPiece_cases sha256 bytes (c.transfer.pieceRangeBytes range).1 c i
        with ⟨_,same⟩ | ⟨_,_,same⟩ | ⟨_,same⟩
      · rw [same]
      · rw [same]; rfl
      · rw [same]
    have later := ih one (by rw [frame]; exact whole) (fun j member => listed j (by simp [member]))
    rw [frame] at later
    exact later

/-! ### The calls of the shell -/

theorem rebalanceOrigin_over (concluded : t.finished = true ∨ t.lanes.get? .origin = none) (now : Nat) :
    t.rebalanceOrigin now = t := by
  rcases rebalanceOrigin_cases t now with same | ⟨origin,_,running,_,found,_⟩
  · exact same
  · rcases concluded with concluded | none
    · rw [running] at concluded; cases concluded
    · rw [none] at found; cases found
theorem Outcome.rebalanced (outcome : Outcome sha256 t t') (now : Nat) :
    Outcome sha256 t (t'.rebalanceOrigin now) := by
  cases outcome with
  | ends object concluded cs last told plain ends good =>
    rw [rebalanceOrigin_over (.inl concluded)]
    exact .ends object concluded cs last told plain ends good
  | runs object running sound cs told plain =>
    refine Outcome.after object ⟨cs,told,plain⟩ ((rebalanceOrigin_works t' now).outcome running sound ?_)
    intro only
    have tidy := sound.tidy ((rebalanceOrigin_works t' now).peerOnly ▸ only)
    rw [rebalanceOrigin_over (.inr tidy.homeless)]
    exact tidy

theorem assign_outcome (running : t.finished = false) (sound : Sound sha256 t) (now : Nat)
    (needed : List Nat) : Outcome sha256 t (t.assign now needed) := by
  cases only : t.peerOnly with
  | false =>
    have works := assign_works only now needed
    exact works.outcome running sound (fun also => by rw [works.peerOnly,only] at also; cases also)
  | true =>
    rcases assign_peerOnly only (sound.tidy only) now needed with stays | ⟨failing,_⟩
    · exact stays.outcome running sound
    · exact failing_outcome failing
theorem retire_sound (sound : Sound sha256 t) (s : Source) : Sound sha256 (t.retire s).1 :=
  sound.works (retire_works t s) (fun only =>
    (retire_tidy (sound.tidy ((retire_works t s).peerOnly ▸ only)) s).1)
theorem reassign_outcome (running : t.finished = false) (sound : Sound sha256 t) (now : Nat)
    (s : Source) : Outcome sha256 t (t.reassign now s) :=
  (assign_outcome ((retire_works t s).finished.trans running) (retire_sound sound s) now _).after
    (retire_works t s).object (retire_works t s).told
theorem failed_outcome (running : t.finished = false) (sound : Sound sha256 t) (now : Nat) (s : Source) :
    Outcome sha256 t (t.failed now s) := by
  have idle : Outcome sha256 t t := (Works.refl t).outcome running sound sound.tidy
  unfold failed
  rw [if_neg (by simp [running])]
  split_ifs
  · exact idle
  · exact fail_outcome t
  · cases t.lanes.get? s with
    | none => exact idle
    | some lane =>
      dsimp only
      split_ifs
      · exact idle
      · exact (reassign_outcome running sound now s).rebalanced now
theorem push_sound (sound : Sound sha256 t) {command : Command} (plain : command.ends = false) :
    Sound sha256 (t.push command) :=
  sound.works (push_works t plain) (fun only => by
    have tidy := sound.tidy only
    exact ⟨⟨tidy.orderly.within,tidy.orderly.gone,tidy.orderly.keyed⟩,tidy.homeless,tidy.pending⟩)
theorem badPiece_outcome (running : t.finished = false) (sound : Sound sha256 t) (now : Nat)
    (s : Source) : Outcome sha256 t (t.badPiece now s) := by
  cases s with
  | origin => exact fail_outcome t
  | peer p =>
    have told : Works t (t.push (.ban p)) := push_works t rfl
    have works := told.trans (retire_works (t.push (.ban p)) (.peer p))
    exact (assign_outcome (works.finished.trans running) (retire_sound (push_sound sound rfl) (.peer p)) now _).after
      works.object works.told
theorem mixed_outcome (mixed : t.peerOnly = false) (running : t.finished = false)
    (sound : Sound sha256 t) (works : Works t t') : Outcome sha256 t t' :=
  works.outcome running sound (fun only => by rw [works.peerOnly,mixed] at only; cases only)

theorem abandon_works (mixed : t.peerOnly = false) (now : Nat) (s : Source) :
    Works t (t.abandon now s) := by
  cases s with
  | origin => exact Works.refl t
  | peer p =>
    have told : Works t (t.push (.abandon p)) := push_works t rfl
    exact (told.trans (reassign_works (told.peerOnly.trans mixed) now _)).trans (rebalanceOrigin_works _ now)
theorem queueOrigins_works (now : Nat) (ranges : List PieceRange) : ∀ {t : Transfer}, t.peerOnly = false →
    Works t (ranges.foldl (fun t range => t.queueOrigin now range) t) := by
  induction ranges with
  | nil => intro t _; exact Works.refl t
  | cons range rest ih =>
    intro t mixed
    have one := queueOrigin_works mixed now range
    exact one.trans (ih (one.peerOnly.trans mixed))
theorem cancelLanes_works (sources : List Source) : ∀ state : Transfer × List Nat,
    Works state.1 (sources.foldl cancelLane state).1 := by
  induction sources with
  | nil => intro state; exact Works.refl _
  | cons s rest ih =>
    intro state
    refine Works.trans ?_ (ih (cancelLane state s))
    cases s with
    | origin => exact retire_works _ _
    | peer p => exact (cancelSource_works state.1 (.peer p)).trans (retire_works _ _)
theorem reachFloor_works (mixed : t.peerOnly = false) (now : Nat) : Works t (t.reachFloor now) := by
  have floored : Works t { t with floorReached := true } := Works.quiet rfl rfl rfl
  have retired := floored.trans (cancelLanes_works ({ t with floorReached := true } : Transfer).lateLanes
    ({ t with floorReached := true },[]))
  exact retired.trans (queueOrigins_works now _ (retired.peerOnly.trans mixed))
theorem endgame_works (mixed : t.peerOnly = false) (now : Nat) : Works t (t.endgame now) := by
  unfold endgame
  dsimp only
  by_cases quiet : t.endgamePieces = [] ∨ ∀ lane ∈ t.lanes.values, lane.inFlight = [] ∨
      (∀ index ∈ t.endgamePieces, ¬ lane.holds index) ∨ (now : ℚ) < lane.finishAt
  · rw [if_pos quiet]; exact Works.refl t
  rw [if_neg quiet,if_neg (by simp [mixed])]
  have marked : Works t { t with duplicated := t.duplicated ∪ t.endgamePieces.toFinset } := Works.quiet rfl rfl rfl
  generalize Option.getD _ _ = idle
  cases idle with
  | origin => exact marked.trans (queueOrigins_works now _ mixed)
  | peer p =>
    refine marked.trans (Works.foldl (fun t range => ?_) _ _)
    exact (extendQueue_works t _ _ _).trans (issue_works _ now _)
theorem judge_works (now : Nat) (sources : List Source) : ∀ {t : Transfer}, t.peerOnly = false →
    Works t (judge now sources t) := by
  induction sources with
  | nil => intro t mixed; exact (endgame_works mixed now).trans (rebalanceOrigin_works _ now)
  | cons s rest ih =>
    intro t mixed
    unfold judge
    split_ifs
    · exact Works.refl t
    · have left := abandon_works mixed now s
      exact left.trans (ih (left.peerOnly.trans mixed))
    · have checked := modify_works t s (fun lane => { lane with checkedAt := now })
      exact checked.trans (ih (checked.peerOnly.trans mixed))
theorem endgame_peerOnly (only : t.peerOnly = true) (tidy : Tidy t) (now : Nat) :
    Stays t (t.endgame now) := by
  unfold endgame
  dsimp only
  split_ifs
  · exact Stays.refl tidy
  cases found : t.peerOnlyEndgameSource with
  | none => exact Stays.refl tidy
  | some idle =>
    have used : InUse t idle := by
      unfold peerOnlyEndgameSource at found
      split_ifs at found
      obtain ⟨entry,best,rfl⟩ := Option.map_eq_some_iff.mp found
      obtain ⟨listed,kept⟩ := List.mem_filter.mp (fastest_mem best)
      simp only [decide_eq_true_eq] at kept
      exact ⟨entry.2,OrderedMap.mem_entries.mp listed,kept.1⟩
    have marked : Stays t { t with duplicated := t.duplicated ∪ t.endgamePieces.toFinset } :=
      Stays.same (Works.quiet rfl rfl rfl) rfl tidy tidy.pending
    cases idle with
    | origin =>
      obtain ⟨lane,origin,_⟩ := used
      rw [tidy.homeless] at origin
      cases origin
    | peer p =>
      exact marked.trans (extends_stays now (s := .peer p) (runs t.endgamePieces) marked.tidy (marked.used _ used)
        (within_runs (fun i => endgamePieces_lt)))
theorem tick_outcome (running : t.finished = false) (sound : Sound sha256 t) (now : Nat) :
    Outcome sha256 t (t.tick now) := by
  unfold tick
  rw [if_neg (by simp [running])]
  by_cases only : t.peerOnly = true
  · rw [if_pos only]
    split_ifs
    · exact failing_outcome ⟨{ t with floorReached := true },Works.quiet rfl rfl rfl,rfl⟩
    · exact (endgame_peerOnly only (sound.tidy only) now).outcome running sound
  · rw [if_neg only]
    have mixed : t.peerOnly = false := by simpa using only
    split_ifs
    · exact mixed_outcome mixed running sound (reachFloor_works mixed now)
    · exact mixed_outcome mixed running sound (judge_works now _ mixed)
theorem modify_tidy (tidy : Tidy t) (s : Source) {f : Lane → Lane}
    (work : ∀ lane, (f lane).queue = lane.queue ∧ (f lane).inFlight = lane.inFlight ∧
      (f lane).retired = lane.retired ∧ (f lane).estimate.source = lane.estimate.source) :
    Tidy { t with lanes := t.lanes.modify s f } ∧
      ∀ s', InUse t s' → InUse { t with lanes := t.lanes.modify s f } s' := by
  refine ⟨⟨(modify_keeps tidy.orderly s work).orderly,?_,tidy.pending⟩,?_⟩
  · simp [OrderedMap.get?_modify,tidy.homeless]
  · rintro s' ⟨lane,found,use⟩
    by_cases same : s' = s
    · subst same
      exact ⟨f lane,by simp [found],(work lane).2.2.1.trans use⟩
    · exact ⟨lane,by rw [← found]; exact OrderedMap.get?_modify_of_ne _ _ same,use⟩
theorem progress_outcome (running : t.finished = false) (sound : Sound sha256 t) (now : Nat)
    (s : Source) (received : Nat) : Outcome sha256 t (t.progress now s received) := by
  have idle : Outcome sha256 t t := (Works.refl t).outcome running sound sound.tidy
  have works := modify_works t s (fun lane => lane.progressed now received)
  have seen : Sound sha256 { t with lanes := t.lanes.modify s (fun lane => lane.progressed now received) } :=
    sound.works works (fun only => (modify_tidy (sound.tidy only) s
      (f := fun lane => lane.progressed now received) (fun _ => ⟨rfl,rfl,rfl,rfl⟩)).1)
  unfold progress
  split_ifs
  · exact tick_outcome running sound now
  · exact idle
  · cases t.lanes.get? s with
    | none => exact idle
    | some lane =>
      dsimp only
      split_ifs with waiting hopeless'
      · exact idle
      · have mixed : t.peerOnly = false := by
          by_contra only
          unfold hopeless at hopeless'
          rw [if_pos (by simpa using only)] at hopeless'
          cases hopeless'
        exact mixed_outcome mixed running sound (works.trans (abandon_works (works.peerOnly.trans mixed) now s))
      · exact (Works.refl _).outcome (works.finished.trans running) seen seen.tidy |>.after works.object works.told

/-! ### A response -/

theorem cancelSource_stays (tidy : Tidy t) (s : Source) : Stays t (t.cancelSource s) := by
  cases s with
  | origin => exact Stays.refl tidy
  | peer p => exact Stays.same (push_works t rfl) rfl tidy tidy.pending
theorem dropRedundant_fold (t : Transfer) (now : Nat) (winner : Source) : ∃ sources : List Source,
    (∀ s ∈ sources, s ≠ winner) ∧ t.dropRedundant now winner = sources.foldl (dropLane now) t := by
  refine ⟨_,?_,rfl⟩
  intro s member
  obtain ⟨entry,listed,rfl⟩ := List.mem_map.mp member
  have kept := (List.mem_filter.mp listed).2
  simp only [decide_eq_true_eq] at kept
  exact kept.1
theorem dropRedundant_works (mixed : t.peerOnly = false) (now : Nat) (winner : Source) :
    Works t (t.dropRedundant now winner) := by
  obtain ⟨sources,_,same⟩ := dropRedundant_fold t now winner
  rw [same]
  clear same
  induction sources generalizing t with
  | nil => exact Works.refl t
  | cons s rest ih =>
    have told := cancelSource_works t s
    have one : Works t (dropLane now t s) := told.trans (reassign_works (told.peerOnly.trans mixed) now s)
    exact one.trans (ih (one.peerOnly.trans mixed) (fun s' member => by simp_all))
/-- Before the floor, dropping the others' work leaves the winner's lane in use,
    so that a peer-only transfer does not end by it. -/
theorem dropRedundant_peerOnly (only : t.peerOnly = true) (tidy : Tidy t) {now : Nat}
    (early : now < t.floorAt) {winner : Source} (used : InUse t winner) :
    Works t (t.dropRedundant now winner) ∧ Tidy (t.dropRedundant now winner) ∧
      InUse (t.dropRedundant now winner) winner := by
  obtain ⟨sources,others,same⟩ := dropRedundant_fold t now winner
  rw [same]
  clear same
  induction sources generalizing t with
  | nil => exact ⟨Works.refl t,tidy,used⟩
  | cons s rest ih =>
    have told := cancelSource_works t s
    have cancelled := cancelSource_stays tidy s
    rcases reassign_peerOnly (told.peerOnly.trans only) cancelled.tidy now s with ⟨works,kept,still⟩ | ⟨_,floor | none⟩
    · have one : Works t (dropLane now t s) := told.trans works
      obtain ⟨more,later,winner'⟩ := ih (one.peerOnly.trans only) kept (by rw [one.floorAt]; exact early)
        (still winner (others s (by simp)).symm (cancelled.used winner used))
          (fun s' member => others s' (by simp [member]))
      exact ⟨one.trans more,later,winner'⟩
    · rw [told.floorAt] at floor
      omega
    · exact absurd (cancelled.used winner used) (none winner (others s (by simp)).symm)

theorem refill_outcome (running : t.finished = false) (sound : Sound sha256 t) (now : Nat) :
    Outcome sha256 t (t.refill now) := by
  unfold refill
  split_ifs with only
  · rcases refillPeerOnly_cases (sound.tidy only) now with stays | ⟨failing,_⟩
    · exact stays.outcome running sound
    · exact failing_outcome failing
  · exact mixed_outcome (by simpa using only) running sound (rebalanceOrigin_works t now)
theorem measure_tidy (tidy : Tidy t) (now : Nat) (s : Source) (sent : Nat) (first : Option Nat)
    (bytes : Nat) : Tidy (t.measure now s sent first bytes) ∧
      ∀ s', InUse t s' → InUse (t.measure now s sent first bytes) s' := by
  unfold measure
  split
  · exact ⟨tidy,fun _ h => h⟩
  · dsimp only
    split_ifs
    · exact ⟨tidy,fun _ h => h⟩
    · exact modify_tidy tidy s (fun _ => ⟨rfl,rfl,rfl,rfl⟩)
theorem accept_outcome {c : Checked} (running : c.transfer.finished = false) (sound : Sound sha256 c.transfer)
    {now : Nat} {source : Source} (used : c.transfer.peerOnly = true → now < c.transfer.floorAt ∧
      InUse c.transfer source)
    (sent : Nat) (first : Option Nat) (bytes : Nat) :
    Outcome sha256 c.transfer (accept sha256 c now source sent first bytes) := by
  unfold accept
  dsimp only
  set probed : Transfer := if c.fresh then c.transfer.endProbe source else c.transfer with names
  have still : Works c.transfer probed := by
    rw [names]
    split_ifs
    · exact endProbe_works _ _
    · exact Works.refl _
  have lanes : c.transfer.peerOnly = true → Tidy probed ∧ InUse probed source := by
    intro only
    rw [names]
    split_ifs
    · exact ⟨(Stays.same (endProbe_works _ source) rfl (sound.tidy only) (sound.tidy only).pending).tidy,(used only).2⟩
    · exact ⟨sound.tidy only,(used only).2⟩
  have measured : Works c.transfer (probed.measure now source sent first bytes) := still.trans (measure_works ..)
  obtain ⟨dropped,tidy⟩ : Works c.transfer ((probed.measure now source sent first bytes).dropRedundant now source) ∧
      (c.transfer.peerOnly = true → Tidy ((probed.measure now source sent first bytes).dropRedundant now source) ∧
        InUse ((probed.measure now source sent first bytes).dropRedundant now source) source) := by
    cases only : c.transfer.peerOnly with
    | false =>
      exact ⟨measured.trans (dropRedundant_works (measured.peerOnly.trans only) now source),fun also => nomatch also⟩
    | true =>
      obtain ⟨clean,use⟩ := lanes only
      obtain ⟨kept,lives⟩ := measure_tidy clean now source sent first bytes
      obtain ⟨works,later,winner⟩ := dropRedundant_peerOnly (measured.peerOnly.trans only) kept
        (by rw [measured.floorAt]; exact (used only).1) (lives source use)
      exact ⟨measured.trans works,fun _ => ⟨later,winner⟩⟩
  generalize (probed.measure now source sent first bytes).dropRedundant now source = t at dropped tidy
  have kept : Sound sha256 t := sound.works dropped (fun only => (tidy (dropped.peerOnly ▸ only)).1)
  split_ifs with complete
  · exact (finish_outcome kept complete).after dropped.object dropped.told
  · have issued := issue_works t now source
    have after : Sound sha256 (t.issue now source) := by
      refine kept.works issued (fun only => ?_)
      obtain ⟨clean,lane,found,use⟩ := tidy (dropped.peerOnly ▸ issued.peerOnly ▸ only)
      exact ((issue_grows found now (clean.orderly.within _ _ found)).stays issued clean ⟨lane,found,use⟩
        (issue_pending t now source)).tidy
    exact (refill_outcome ((dropped.trans issued).finished.trans running) after now).after
      (dropped.trans issued).object (dropped.trans issued).told
theorem delivered_outcome (running : t.finished = false) (sound : Sound sha256 t) (now : Nat)
    (source : Source) (range : PieceRange) (bytes : List UInt8) :
    Outcome sha256 t (t.delivered sha256 now source range bytes) := by
  have idle : Outcome sha256 t t := (Works.refl t).outcome running sound sound.tidy
  unfold delivered
  by_cases floor : t.peerOnly = true ∧ t.floorAt ≤ now
  · rw [if_pos floor]; exact tick_outcome running sound now
  rw [if_neg floor,if_neg (by simp [running])]
  cases found : t.lanes.get? source with
  | none => exact idle
  | some lane =>
    cases seen : lane.inFlight.find? (·.1 = range) with
    | none => simp only [seen]; exact idle
    | some sent =>
      simp only [seen]
      by_cases length : bytes.length ≠ (t.pieceRangeBytes range).2 - (t.pieceRangeBytes range).1
      · rw [if_pos length]; exact failed_outcome running sound now source
      rw [if_neg length]
      have works := modify_works t source (fun lane => lane.answered range)
      have lanes : t.peerOnly = true →
          Tidy { t with lanes := t.lanes.modify source (fun lane => lane.answered range) } ∧
            InUse { t with lanes := t.lanes.modify source (fun lane => lane.answered range) } source := by
        intro only
        have tidy := sound.tidy only
        refine ⟨⟨answered_orderly tidy.orderly source range,?_,tidy.pending⟩,lane.answered range,by simp [found],?_⟩
        · simp [OrderedMap.get?_modify,tidy.homeless]
        · by_contra gone
          have none := tidy.orderly.gone source lane found (by simpa [Lane.answered] using gone)
          have member := List.mem_of_find?_eq_some seen
          rw [List.map_eq_nil_iff.mp (List.append_eq_nil_iff.mp none).1] at member
          cases member
      have taken : Sound sha256 { t with lanes := t.lanes.modify source (fun lane => lane.answered range) } :=
        sound.works works (fun only => (lanes only).1)
      have checked := checkPieces_sound
        (c := ⟨{ t with lanes := t.lanes.modify source (fun lane => lane.answered range) },false,false⟩)
        range.indices taken (not_not.mp length) (fun _ member => member)
      obtain ⟨frame,count⟩ := checkPieces_frame sha256 bytes (t.pieceRangeBytes range).1 range.indices
        ⟨{ t with lanes := t.lanes.modify source (fun lane => lane.answered range) },false,false⟩
      change Sound sha256 (range.indices.foldl (checkPiece sha256 bytes (t.pieceRangeBytes range).1) _).transfer
        at checked
      generalize range.indices.foldl (checkPiece sha256 bytes (t.pieceRangeBytes range).1)
        ⟨{ t with lanes := t.lanes.modify source (fun lane => lane.answered range) },false,false⟩ = c
          at checked frame count ⊢
      have object : c.transfer.object = t.object := by
        unfold Transfer.object
        rw [count,frame]
      have still : c.transfer.finished = false := by rw [frame]; exact running
      have said : ∃ cs, c.transfer.commands = t.commands ++ cs ∧ ∀ d ∈ cs, d.ends = false :=
        ⟨[],by rw [frame]; simp,by simp⟩
      refine Outcome.after object said ?_
      split_ifs
      · exact badPiece_outcome still checked now source
      · refine accept_outcome still checked (fun only => ?_) _ _ _
        have peersOnly : t.peerOnly = true := by rw [frame] at only; exact only
        have early : now < t.floorAt := by
          have := not_and.mp floor peersOnly
          omega
        refine ⟨?_,?_⟩
        · rw [frame]; exact early
        · obtain ⟨lane',found',use⟩ := (lanes peersOnly).2
          exact ⟨lane',by rw [frame]; exact found',use⟩


/-! ### Starting -/

theorem openSources_works (now : Nat) (estimates : List Estimate) : ∀ t : Transfer,
    Works t (estimates.foldl (openSource now) t) ∧ (t.peerOnly = true → Tidy t →
      Tidy (estimates.foldl (openSource now) t)) := by
  induction estimates with
  | nil => intro t; exact ⟨Works.refl t,fun _ tidy => tidy⟩
  | cons e rest ih =>
    intro t
    have one : Works t (openSource now t e) := by
      unfold openSource
      split_ifs
      · exact Works.refl t
      · exact openLane_works t now e
    obtain ⟨works,later⟩ := ih (openSource now t e)
    refine ⟨one.trans works,fun only tidy => later (one.peerOnly.trans only) ?_⟩
    unfold openSource
    split_ifs with skipped
    · exact tidy
    · refine ⟨(openLane_keeps tidy.orderly now e).orderly,?_,tidy.pending⟩
      rw [openLane_get,if_neg]
      · exact tidy.homeless
      · intro same
        rw [← same] at skipped
        exact skipped ⟨only,rfl⟩
theorem openSources_quiet (now : Nat) (estimates : List Estimate) : ∀ t : Transfer,
    (estimates.foldl (openSource now) t).commands = t.commands := by
  induction estimates with
  | nil => intro t; rfl
  | cons e rest ih =>
    intro t
    rw [List.foldl_cons,ih,openSource]
    split_ifs <;> rfl
/-- Between the checks of a start and its first assignment only lanes are opened. -/
theorem startInner_cases (t : Transfer) (now : Nat) (peers : List Estimate) (origin : Option Estimate)
    (first rate : Option ℚ) (probes : List Nat) :
    t.startInner now peers origin first rate probes = t ∨
    ∃ (marks : Finset Source) (u : Transfer), u = (peers ++ origin.toList).foldl (openSource now) { t with
        started := true, sharedFirstByteMs := first, sharedRate := rate, probePeers := marks
        probeAvailable := marks } ∧
      t.startInner now peers origin first rate probes = u.assign now (List.range u.verified.length) := by
  unfold startInner
  by_cases guarded : t.peerOnly = true ∧ (t.started = true ∨ t.finished = true)
  · exact .inl (if_pos guarded)
  · rw [if_neg guarded]
    exact .inr ⟨_,_,rfl,rfl⟩
theorem start_outcome (running : t.finished = false) (sound : Sound sha256 t) (now : Nat)
    (peers : List Estimate) (origin : Option Estimate) (first rate : Option ℚ) (probes : List Nat) :
    Outcome sha256 t (t.startInner now peers origin first rate probes) := by
  rcases startInner_cases t now peers origin first rate probes with same | ⟨marks,u,opens,same⟩
  · rw [same]; exact (Works.refl t).outcome running sound sound.tidy
  rw [same,opens]
  set begun : Transfer := { t with
    started := true, sharedFirstByteMs := first, sharedRate := rate, probePeers := marks, probeAvailable := marks }
  have lanes : t.peerOnly = true → Tidy begun := by
    intro only
    have tidy := sound.tidy only
    exact ⟨⟨tidy.orderly.within,tidy.orderly.gone,tidy.orderly.keyed⟩,tidy.homeless,tidy.pending⟩
  have ready : Sound sha256 begun := ⟨sound.data,sound.count,sound.fits,sound.pieces,lanes⟩
  obtain ⟨works,tidy⟩ := openSources_works now (peers ++ origin.toList) begun
  have opened := ready.works works (fun only => by
    have peersOnly : begun.peerOnly = true := works.peerOnly ▸ only
    exact tidy peersOnly (lanes peersOnly))
  exact (assign_outcome (works.finished.trans running) opened now _).after works.object works.told

/-! ### Every call, and whole runs -/

theorem handle_outcome (running : t.finished = false) (sound : Sound sha256 t) (event : Event) :
    Outcome sha256 t (handle sha256 t event) := by
  cases event with
  | start now peers origin first rate probes => exact start_outcome running sound now peers _ first rate probes
  | startPeerOnly now peers first rate probes =>
    unfold handle startPeerOnlyWithProbePeers
    dsimp only
    split_ifs
    · exact start_outcome running sound now peers none first rate probes
    · exact (Works.refl t).outcome running sound sound.tidy
  | delivered now source range bytes => exact delivered_outcome running sound now source range bytes
  | failed now source => exact failed_outcome running sound now source
  | progress now source received => exact progress_outcome running sound now source received
  | tick now => exact tick_outcome running sound now
theorem handle_over (concluded : t.finished = true) (event : Event) :
    (handle sha256 t event).finished = true ∧ (handle sha256 t event).commands = t.commands ∧
      (handle sha256 t event).object = t.object := by
  have ticked : ∀ now, t.tick now = t := fun now => by unfold tick; rw [if_pos concluded]
  have started : ∀ now peers origin first rate probes,
      (t.startInner now peers origin first rate probes).finished = true ∧
      (t.startInner now peers origin first rate probes).commands = t.commands ∧
      (t.startInner now peers origin first rate probes).object = t.object := by
    intro now peers origin first rate probes
    by_cases only : t.peerOnly = true
    · unfold startInner
      rw [if_pos ⟨only,.inr concluded⟩]
      exact ⟨concluded,rfl,rfl⟩
    rcases startInner_cases t now peers origin first rate probes with same | ⟨marks,u,opens,same⟩
    · rw [same]; exact ⟨concluded,rfl,rfl⟩
    · obtain ⟨works,_⟩ := openSources_works now (peers ++ origin.toList) { t with
        started := true, sharedFirstByteMs := first, sharedRate := rate, probePeers := marks, probeAvailable := marks }
      have quiet := openSources_quiet now (peers ++ origin.toList) { t with
        started := true, sharedFirstByteMs := first, sharedRate := rate, probePeers := marks, probeAvailable := marks }
      have ended := works.finished.trans concluded
      have object := works.object
      have mixed := works.peerOnly.trans (by simpa using only)
      rw [← opens] at quiet ended object mixed
      rw [same]
      rcases assign_mixed mixed now (List.range u.verified.length) with
        ⟨idle,_⟩ | ⟨_,_,running,_⟩ | ⟨_,running,_⟩
      · rw [idle]; exact ⟨ended,quiet,object⟩
      · rw [ended] at running; cases running
      · rw [ended] at running; cases running
  cases event with
  | start now peers origin first rate probes => exact started ..
  | startPeerOnly now peers first rate probes =>
    unfold handle startPeerOnlyWithProbePeers
    dsimp only
    split_ifs
    · exact started ..
    · exact ⟨concluded,rfl,rfl⟩
  | delivered now source range bytes =>
    have quiet : t.delivered sha256 now source range bytes = t := by
      unfold delivered
      rw [ticked,if_pos concluded,ite_self]
    rw [handle,quiet]
    exact ⟨concluded,rfl,rfl⟩
  | failed now source =>
    unfold handle failed
    dsimp only
    rw [if_pos concluded]
    exact ⟨concluded,rfl,rfl⟩
  | progress now source received =>
    have quiet : t.progress now source received = t := by
      unfold progress
      rw [ticked,if_pos (Or.inl concluded),ite_self]
    rw [handle,quiet]
    exact ⟨concluded,rfl,rfl⟩
  | tick now =>
    unfold handle
    dsimp only
    rw [ticked]
    exact ⟨concluded,rfl,rfl⟩

/-- A transfer under its shell: nothing that ends it was said while it runs, and
    its last word, said once, is the end of the stream. -/
structure Streams (sha256 : List UInt8 → Digest) (o : Object) (s : Shell) : Prop where
  drained : s.transfer.commands = []
  object : s.transfer.object = o
  running : s.transfer.finished = false → Sound sha256 s.transfer ∧ ∀ c ∈ s.emitted, c.ends = false
  concluded : s.transfer.finished = true → ∃ cs last, s.emitted = cs ++ [last] ∧ last.ends = true ∧
    (∀ c ∈ cs, c.ends = false) ∧ ∀ bytes, last = .deliver bytes → o.Matches sha256 bytes

theorem drained_sound (sound : Sound sha256 t) : Sound sha256 t.drainCommands.2 := by
  refine ⟨sound.data,sound.count,sound.fits,sound.pieces,fun only => ?_⟩
  have tidy := sound.tidy only
  exact ⟨⟨tidy.orderly.within,tidy.orderly.gone,tidy.orderly.keyed⟩,tidy.homeless,tidy.pending⟩
theorem step_streams {o : Object} {s : Shell} (streams : Streams sha256 o s) (event : Event) :
    Streams sha256 o (Shell.step sha256 s event) := by
  cases concluded : s.transfer.finished with
  | true =>
    have ended : (handle sha256 s.transfer event).finished = true := (handle_over concluded event).1
    have quiet : (handle sha256 s.transfer event).commands = s.transfer.commands := (handle_over concluded event).2.1
    have object : (handle sha256 s.transfer event).object = s.transfer.object := (handle_over concluded event).2.2
    obtain ⟨cs,last,emitted,rest⟩ := streams.concluded concluded
    refine ⟨rfl,object.trans streams.object,fun running => ?_,fun _ => ⟨cs,last,?_,rest⟩⟩
    · have finished : (handle sha256 s.transfer event).finished = false := running
      rw [ended] at finished
      cases finished
    · simp [Shell.step,drainCommands,quiet,streams.drained,emitted]
  | false =>
    obtain ⟨sound,plain⟩ := streams.running concluded
    cases handle_outcome concluded sound event with
    | runs object running sound' cs told quiet =>
      rw [streams.drained,List.nil_append] at told
      refine ⟨rfl,object.trans streams.object,fun _ => ⟨drained_sound sound',?_⟩,fun finished => ?_⟩
      · intro c member
        simp only [Shell.step,drainCommands,told,List.mem_append] at member
        exact member.elim (plain c) (quiet c)
      · have ended : (handle sha256 s.transfer event).finished = true := finished
        rw [running] at ended
        cases ended
    | ends object ended cs last told quiet ends good =>
      rw [streams.drained,List.nil_append] at told
      refine ⟨rfl,object.trans streams.object,fun running => ?_,fun _ => ⟨s.emitted ++ cs,last,?_,ends,?_,?_⟩⟩
      · have finished : (handle sha256 s.transfer event).finished = false := running
        rw [ended] at finished
        cases finished
      · simp [Shell.step,drainCommands,told]
      · intro c member
        exact (List.mem_append.mp member).elim (plain c) (quiet c)
      · rw [← streams.object]; exact good
theorem run_streams {o : Object} (events : List Event) : ∀ {s : Shell}, Streams sha256 o s →
    Streams sha256 o (Shell.run sha256 s events) := by
  induction events with
  | nil => intro s streams; exact streams
  | cons event rest ih => intro s streams; exact ih (step_streams streams event)

theorem mapM_decode {pieces : List String} : ∀ {hashes : List Digest}, pieces.mapM decode = some hashes →
    hashes.length = pieces.length ∧ ∀ (i : Nat) (inside : i < pieces.length), hashes[i]? = decode pieces[i] := by
  induction pieces with
  | nil => intro hashes decoded; cases decoded; exact ⟨rfl,fun i inside => by cases inside⟩
  | cons piece rest ih =>
    intro hashes decoded
    rw [List.mapM_cons] at decoded
    obtain ⟨first,one,decoded⟩ := Option.bind_eq_some_iff.mp decoded
    obtain ⟨later,others,decoded⟩ := Option.bind_eq_some_iff.mp decoded
    cases decoded
    obtain ⟨length,each⟩ := ih others
    refine ⟨by simp [length],fun i inside => ?_⟩
    cases i with
    | zero => simpa using one.symm
    | succ i => simpa using each i (by simpa using inside)
/-- A transfer of an object in any mode, before its first call. -/
theorem made_streams (sha256 : List UInt8 → Digest) {config : TransferConfig} {size : Nat} {digest : String}
    {pieces : List String} {deadline : Nat} (made : new config size digest pieces deadline = some t ∨
      (new config size digest pieces deadline).bind withExclusiveOrigin = some t ∨
      newPeerOnly config size digest pieces deadline = some t) :
    ∃ o : Object, Streams sha256 o ⟨t,[]⟩ ∧ o.size = size ∧ o.pieceSize = commitmentPieceSize size ∧
      o.count = pieces.length ∧ some o.whole = decode digest ∧
      ∀ (i : Nat) (inside : i < pieces.length), o.hashes[i]? = decode pieces[i] := by
  have plain : ∀ {t}, new config size digest pieces deadline = some t →
      t.size = size ∧ t.pieceSize = commitmentPieceSize size ∧ t.verified.length = pieces.length ∧
      some t.whole = decode digest ∧ (∀ (i : Nat) (inside : i < pieces.length), t.hashes[i]? = decode pieces[i]) ∧
      t.hashes.length = pieces.length ∧ t.data.length = size ∧ t.lanes = .empty ∧ t.peerPending = [] ∧
      t.commands = [] ∧ ∀ i < pieces.length, i * commitmentPieceSize size ≤ size := by
    intro t made
    unfold new at made
    cases counted : pieceCount size with
    | none => simp [counted] at made
    | some count =>
      simp only [counted,Option.bind_eq_bind,Option.bind_some] at made
      split_ifs at made with fits
      simp only [Option.bind_eq_some_iff] at made
      obtain ⟨hashes,decoded,whole,last,same⟩ := made
      cases same
      have length : pieces.length = count := not_not.mp fits
      obtain ⟨as,each⟩ := mapM_decode decoded
      refine ⟨rfl,rfl,by simp [length],last.symm,each,as,by simp,rfl,rfl,rfl,?_⟩
      intro i inside
      have covers := (pieceCount_covers counted).2
      have low : i * commitmentPieceSize size ≤ (count - 1) * commitmentPieceSize size :=
        Nat.mul_le_mul_right _ (by omega)
      omega
  have streams : ∀ {t'}, new config size digest pieces deadline = some t' → t.object = { t'.object with
      peerOnly := t.peerOnly } → t.lanes = t'.lanes → t.peerPending = t'.peerPending → t.commands = t'.commands →
      t.data = t'.data → t.finished = false → t.verified = t'.verified → ∃ o : Object, Streams sha256 o ⟨t,[]⟩ ∧
      o.size = size ∧ o.pieceSize = commitmentPieceSize size ∧ o.count = pieces.length ∧ some o.whole = decode digest ∧
      ∀ (i : Nat) (inside : i < pieces.length), o.hashes[i]? = decode pieces[i] := by
    intro t' made' object lanes pending commands data running verified
    obtain ⟨size',piece,count,whole,each,hashes,length,empty,none,quiet,fits⟩ := plain made'
    have fresh := (new_fresh (.inl made')).verified
    simp only [Transfer.object,Object.mk.injEq,and_true] at object
    obtain ⟨sameSize,samePiece,sameHashes,sameWhole,_⟩ := object
    refine ⟨t.object,⟨commands.trans quiet,rfl,fun _ => ⟨⟨?_,?_,?_,?_,?_⟩,by simp⟩,fun concluded => ?_⟩,
      sameSize.trans size',samePiece.trans piece,(congrArg List.length verified).trans count,?_,?_⟩
    · rw [data,sameSize,length,size']
    · rw [sameHashes,verified,hashes,count]
    · intro i inside
      rw [verified,count] at inside
      rw [samePiece,sameSize,piece,size']
      exact fits i inside
    · intro i done
      have clean := fresh i
      unfold isVerified at done clean
      rw [verified,clean] at done
      cases done
    · intro _
      have absent : ∀ s, t.lanes.get? s = Option.none := fun s => by rw [lanes,empty]; rfl
      refine ⟨⟨?_,?_,?_⟩,absent _,by rw [pending,none]; simp⟩
      all_goals intro s lane found; cases (absent s).symm.trans found
    · have ended : t.finished = true := concluded
      rw [running] at ended
      cases ended
    · exact (congrArg some sameWhole).trans whole
    · intro i inside
      exact (congrArg (fun hashes : List Digest => hashes[i]?) sameHashes).trans (each i inside)
  have running : ∀ {t}, new config size digest pieces deadline = some t → t.finished = false :=
    fun made => (new_fresh (.inl made)).running
  rcases made with made | made | made
  · exact streams made rfl rfl rfl rfl rfl (running made) rfl
  · obtain ⟨t',first,second⟩ := Option.bind_eq_some_iff.mp made
    unfold withExclusiveOrigin at second
    split_ifs at second
    cases second
    exact streams first rfl rfl rfl rfl rfl (running (t := t') first) rfl
  · obtain ⟨t',first,same⟩ := Option.map_eq_some_iff.mp made
    subst same
    exact streams first rfl rfl rfl rfl rfl (running (t := t') first) rfl
/-- A transfer in any mode, told anything in any order: while it runs nothing has
    ended it; once it is finished its stream ends with the one `Deliver` or `Fail` of
    the stream; and what it delivers is the committed object. -/
theorem run_ends_once (sha256 : List UInt8 → Digest) {config : TransferConfig} {size : Nat} {digest : String}
    {pieces : List String} {deadline : Nat} {t : Transfer} (made : new config size digest pieces deadline = some t ∨
      (new config size digest pieces deadline).bind withExclusiveOrigin = some t ∨
      newPeerOnly config size digest pieces deadline = some t) (events : List Event) :
    let s := Shell.run sha256 ⟨t,[]⟩ events
    (s.transfer.finished = false → ∀ c ∈ s.emitted, c.ends = false) ∧
    (s.transfer.finished = true → ∃ cs last, s.emitted = cs ++ [last] ∧ last.ends = true ∧
      ∀ c ∈ cs, c.ends = false) ∧
    ∀ bytes, .deliver bytes ∈ s.emitted → bytes.length = size ∧ decode digest = some (sha256 bytes) ∧
      ∀ (i : Nat) (inside : i < pieces.length),
        decode pieces[i] = some (sha256 (pieceOf size (commitmentPieceSize size) i bytes)) := by
  intro s
  obtain ⟨o,first,size',piece,count,whole,each⟩ := made_streams sha256 made
  have streams : Streams sha256 o s := run_streams events first
  refine ⟨fun running => (streams.running running).2,fun concluded => ?_,?_⟩
  · obtain ⟨cs,last,emitted,ends,plain,_⟩ := streams.concluded concluded
    exact ⟨cs,last,emitted,ends,plain⟩
  · intro bytes member
    cases concluded : s.transfer.finished with
    | false => cases (streams.running concluded).2 _ member
    | true =>
      obtain ⟨cs,last,emitted,_,plain,good⟩ := streams.concluded concluded
      rw [emitted] at member
      rcases List.mem_append.mp member with early | final
      · cases plain _ early
      obtain ⟨length,matches',all⟩ := good bytes (List.mem_singleton.mp final).symm
      rw [size',count,piece] at *
      refine ⟨length,by rw [← whole,all],fun i inside => ?_⟩
      rw [← each i inside]
      exact matches' i inside

/-- One peer sends the one piece of an object, and the object is delivered. -/
theorem run_ends_once_delivering : ∃ t, new ⟨1,0⟩ 1 zeroDigest [zeroDigest] 1000 = some t ∧
    let s := Shell.run (fun _ => List.replicate 32 0) ⟨t,[]⟩
      [.start 0 [⟨.peer 1,some 5,some 100⟩] ⟨.origin,none,none⟩ none none [],.delivered 6 (.peer 1) ⟨0,1⟩ [7],.tick 9]
    s.emitted = [.request 1 ⟨0,1⟩,.deliver [7]] ∧
    (s.transfer.finished = false → ∀ c ∈ s.emitted, c.ends = false) ∧
    (s.transfer.finished = true → ∃ cs last, s.emitted = cs ++ [last] ∧ last.ends = true ∧
      ∀ c ∈ cs, c.ends = false) ∧
    ∀ bytes, .deliver bytes ∈ s.emitted → bytes.length = 1 ∧ decode zeroDigest = some (List.replicate 32 0) ∧
      ∀ (i : Nat) (_ : i < [zeroDigest].length), decode [zeroDigest][i] = some (List.replicate 32 0) := by
  obtain ⟨t,made⟩ := Option.isSome_iff_exists.mp
    (by decide +kernel : (new ⟨1,0⟩ 1 zeroDigest [zeroDigest] 1000).isSome = true)
  have evaluated : (new ⟨1,0⟩ 1 zeroDigest [zeroDigest] 1000).map (fun t =>
      (Shell.run (fun _ => List.replicate 32 0) ⟨t,[]⟩
        [.start 0 [⟨.peer 1,some 5,some 100⟩] ⟨.origin,none,none⟩ none none [],
        .delivered 6 (.peer 1) ⟨0,1⟩ [7],.tick 9]).emitted) = some [.request 1 ⟨0,1⟩,.deliver [7]] := by decide +kernel
  rw [made] at evaluated
  exact ⟨t,made,Option.some.inj evaluated,run_ends_once (fun _ => List.replicate 32 0) (.inl made) _⟩

end
end Transfer
end RelaySwarm.Transfers
