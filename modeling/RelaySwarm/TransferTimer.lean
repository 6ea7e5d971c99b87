import RelaySwarm.TransferRuns
import RelaySwarm.TransferKeyed

/-!
The timer of a transfer moves on. What a tick does to the lanes of a mixed transfer
leaves each peer's request as it was or starts one now (`Turns`), so a request that was
judged is not due at once again (`Watched`), and after the endgame no lane that still
has pieces of it is behind (`Ahead`). A shell that ticks at the reported deadline never
gets the same deadline back (`tick_moves_on`).
-/
namespace RelaySwarm.Transfers
open Pieces Planning

variable {t t' : Transfer} {s : Source} {lane : Lane}
/-- What of a lane says when its request is due. -/
def Lane.timing (lane : Lane) : Option (PieceRange × Nat) × Option Nat × List (Nat × Nat) × Nat × Option ℚ :=
  (lane.inFlight.head?,lane.firstByteAt,lane.flow,lane.checkedAt,lane.estimate.firstByteMs)
theorem Lane.timing_eq {a b : Lane} (same : a.timing = b.timing) : a.inFlight.head? = b.inFlight.head? ∧
    a.firstByteAt = b.firstByteAt ∧ a.flow = b.flow ∧ a.checkedAt = b.checkedAt ∧
    a.estimate.firstByteMs = b.estimate.firstByteMs := by
  simpa [Lane.timing] using same

namespace Transfer

/-! ### Projections are positive -/

theorem median_mem {values : List ℚ} {value : ℚ} (middle : median values = some value) : value ∈ values :=
  (List.mem_insertionSort _).mp (List.mem_of_getElem? middle)
theorem resolve_positive {estimates : List Estimate} {input : PlanInput} {source : Timed}
    (member : source ∈ resolve estimates input) : 0 ≤ source.firstByte ∧ 0 < source.rate := by
  obtain ⟨estimate,_,rfl⟩ := List.mem_map.mp member
  have first : ∀ {value : Option ℚ} {v : ℚ}, nonNegative value = some v → 0 ≤ v := fun kept =>
    of_decide_eq_true (Option.filter_eq_some_iff.mp kept).2
  have rate : ∀ {value : Option ℚ} {v : ℚ}, positive value = some v → 0 < v := fun kept =>
    of_decide_eq_true (Option.filter_eq_some_iff.mp kept).2
  constructor
  · dsimp only
    cases own : nonNegative estimate.firstByteMs with
    | some v => exact first own
    | none =>
      cases shared : nonNegative input.sharedFirstByteMs with
      | some v => exact first shared
      | none => exact le_refl _
  · dsimp only
    cases own : positive estimate.rate with
    | some v => exact rate own
    | none =>
      cases tested : median (input.peers.filterMap (fun peer => positive peer.rate)) with
      | some v =>
        obtain ⟨peer,_,measured⟩ := List.mem_filterMap.mp (median_mem tested)
        exact rate measured
      | none =>
        cases shared : positive input.sharedRate with
        | some v => exact rate shared
        | none =>
          show (0 : ℚ) < minRate
          norm_num [minRate]
theorem deal_projected (size pieceSize : Nat) (sources : List Timed) : ∀ (counts needed : List Nat),
    (∀ source ∈ sources, 0 ≤ source.firstByte ∧ 0 < source.rate) →
    ∀ a ∈ deal size pieceSize sources counts needed, (∃ i ∈ indices a.ranges, 0 < pieceBytes size pieceSize i) →
      0 < a.projectedMs := by
  induction sources with
  | nil =>
    intro counts needed _ a member
    cases counts <;> simp [deal] at member
  | cons source rest ih =>
    intro counts needed timed a member some
    cases counts with
    | nil => simp [deal] at member
    | cons count counts =>
      have later := fun needed => ih counts needed (fun s listed => timed s (List.mem_cons_of_mem _ listed)) a
      unfold deal at member
      split_ifs at member
      · exact later needed member some
      · rcases List.mem_cons.mp member with rfl | tail
        · obtain ⟨first,rate⟩ := timed source List.mem_cons_self
          obtain ⟨i,inside,bytes⟩ := some
          rw [indices_runs] at inside
          have total : (0 : ℚ) < (((needed.take count).map (pieceBytes size pieceSize)).sum : Nat) := by
            exact_mod_cast List.sum_pos_iff_exists_pos_nat.mpr ⟨_,List.mem_map_of_mem inside,bytes⟩
          have part := div_pos total rate
          dsimp only
          linarith
        · exact later _ tail some
theorem movedPlan_projected {now : Nat} {origin : Lane} {planned : Plan}
    (moved : t.movedPlan now origin = some planned) : ∀ a ∈ planned.assignments,
      (∃ i ∈ indices a.ranges, 0 < pieceBytes t.size (commitmentPieceSize t.size) i) → 0 < a.projectedMs := by
  unfold movedPlan at moved
  dsimp only at moved
  split_ifs at moved
  cases moved
  exact deal_projected _ _ _ _ _ (fun source member => resolve_positive member)

/-! ### What a tick leaves of the requests -/

/-- What requests there are was sent now. -/
def Sent (now : Nat) (lane : Lane) : Prop := ∀ range sent, lane.inFlight.head? = some (range,sent) →
  sent = now ∧ lane.firstByteAt = none
/-- A step of a tick: what was requested of a peer stays as it was, or is requested now. -/
structure Turns (now : Nat) (t t' : Transfer) : Prop where
  works : Works t t'
  floor : t'.floorReached = t.floorReached
  firstByte : t'.sharedFirstByteMs = t.sharedFirstByteMs
  rate : t'.sharedRate = t.sharedRate
  duplicated : t.duplicated ⊆ t'.duplicated
  lanes : ∀ s lane', s.isPeer = true → t'.lanes.get? s = some lane' → lane'.retired = false → Sent now lane' ∨
    ∃ lane, t.lanes.get? s = some lane ∧ lane.retired = false ∧ lane.timing = lane'.timing
  gone : ∀ s lane, t.lanes.get? s = some lane → lane.retired = true →
    ∃ lane', t'.lanes.get? s = some lane' ∧ lane'.retired = true

section
variable {now : Nat} {t : Transfer}

theorem Turns.refl (t : Transfer) : Turns now t t :=
  ⟨Works.refl t,rfl,rfl,rfl,Finset.Subset.refl _,fun _ lane _ found use => .inr ⟨lane,found,use,rfl⟩,
    fun _ lane found gone => ⟨lane,found,gone⟩⟩
theorem Turns.trans {a b c : Transfer} (first : Turns now a b) (second : Turns now b c) : Turns now a c := by
  refine ⟨first.works.trans second.works,second.floor.trans first.floor,second.firstByte.trans first.firstByte,
    second.rate.trans first.rate,first.duplicated.trans second.duplicated,?_,?_⟩
  · intro s lane'' peer found use
    rcases second.lanes s lane'' peer found use with sent | ⟨lane',found',use',same⟩
    · exact .inl sent
    · rcases first.lanes s lane' peer found' use' with sent | ⟨lane,before,use,same'⟩
      · obtain ⟨head,byte,_⟩ := Lane.timing_eq same
        refine .inl (fun range here flying => ?_)
        rw [← head] at flying
        rw [← byte]
        exact sent range here flying
      · exact .inr ⟨lane,before,use,same'.trans same⟩
  · intro s lane found gone
    obtain ⟨lane',found',gone'⟩ := first.gone s lane found gone
    exact second.gone s lane' found' gone'
theorem Turns.foldl {α : Type} {f : Transfer → α → Transfer} (as : List α)
    (each : ∀ a ∈ as, ∀ t, Turns now t (f t a)) : ∀ t, Turns now t (as.foldl f t) := by
  induction as with
  | nil => exact Turns.refl
  | cons a rest ih =>
    exact fun t => (each a List.mem_cons_self t).trans (ih (fun b member => each b (List.mem_cons_of_mem a member)) _)
theorem Turns.same (works : Works t t') (lanes : t'.lanes = t.lanes) (floor : t'.floorReached = t.floorReached)
    (firstByte : t'.sharedFirstByteMs = t.sharedFirstByteMs) (rate : t'.sharedRate = t.sharedRate)
    (duplicated : t.duplicated ⊆ t'.duplicated) : Turns now t t' := by
  refine ⟨works,floor,firstByte,rate,duplicated,fun s lane _ found use => ?_,fun s lane found gone => ?_⟩
  · rw [lanes] at found
    exact .inr ⟨lane,found,use,rfl⟩
  · rw [lanes]
    exact ⟨lane,found,gone⟩
/-- A change of one lane that takes it out of use, or leaves its request or sends one now. -/
theorem Turns.modify (works : Works t t') {f : Lane → Lane}
    (lanes : t'.lanes = t.lanes.modify s f) (floor : t'.floorReached = t.floorReached)
    (firstByte : t'.sharedFirstByteMs = t.sharedFirstByteMs) (rate : t'.sharedRate = t.sharedRate)
    (duplicated : t.duplicated ⊆ t'.duplicated)
    (kept : ∀ lane, s.isPeer = true → t.lanes.get? s = some lane → (f lane).retired = false → lane.retired = false ∧
      (Sent now (f lane) ∨ lane.timing = (f lane).timing))
    (gone : ∀ lane, lane.retired = true → (f lane).retired = true) : Turns now t t' := by
  refine ⟨works,floor,firstByte,rate,duplicated,fun s' lane' peer found use => ?_,fun s' lane found gone' => ?_⟩
  · rw [lanes,OrderedMap.get?_modify] at found
    split_ifs at found with own
    · obtain ⟨lane,before,rfl⟩ := Option.map_eq_some_iff.mp found
      subst own
      obtain ⟨use',sent | same⟩ := kept lane peer before use
      · exact .inl sent
      · exact .inr ⟨lane,before,use',same⟩
    · exact .inr ⟨lane',found,use,rfl⟩
  · rw [lanes,OrderedMap.get?_modify]
    split_ifs
    · rw [found]
      exact ⟨f lane,rfl,gone lane gone'⟩
    · exact ⟨lane,found,gone'⟩

theorem sending_sent (idle : lane.inFlight = []) (now : Nat) (sent left : List PieceRange) :
    Sent now (lane.sending now sent left) := by
  unfold Lane.sending
  cases sent with
  | nil => intro range here flying; simp [idle] at flying
  | cons first rest =>
    intro range here flying
    simp [idle] at flying
    exact ⟨flying.2.symm,rfl⟩
theorem sending_timing (lane : Lane) (now : Nat) (left : List PieceRange) :
    lane.timing = (lane.sending now [] left).timing := by
  simp [Lane.sending,Lane.timing]
theorem issue_turns (t : Transfer) (now : Nat) (s : Source) : Turns now t (t.issue now s) := by
  have works := issue_works t now s
  unfold issue at works ⊢
  cases found : t.lanes.get? s with
  | none => exact Turns.refl t
  | some lane =>
    simp only [found] at works ⊢
    by_cases held : t.exclusiveOrigin = true ∧ s = .origin ∧ lane.inFlight ≠ []
    · rw [if_pos held]
      exact Turns.refl t
    · rw [if_neg held] at works ⊢
      refine Turns.modify works (f := fun lane => lane.sending now _ _) rfl rfl rfl rfl (Finset.Subset.refl _)
        (fun lane' peer found' use => ?_) (fun lane' gone => ?_)
      · rw [found] at found'
        cases found'
        refine ⟨(sending_work lane now _ _).2.2.2.1 ▸ use,?_⟩
        cases s with
        | origin => cases peer
        | peer p =>
          cases idle : lane.inFlight with
          | nil => exact .inl (sending_sent idle now _ _)
          | cons first rest =>
            refine .inr ?_
            simp only [List.isEmpty_cons,sendQueue_busy]
            exact sending_timing lane now _
      · rw [(sending_work lane' now _ _).2.2.2.1]
        exact gone
theorem extendQueue_turns (t : Transfer) (s : Source) (ranges : List PieceRange) (finishAt : ℚ → ℚ) :
    Turns now t (t.extendQueue s ranges finishAt) :=
  Turns.modify (extendQueue_works ..) (s := s)
    (f := fun lane => { lane with queue := lane.queue ++ ranges, finishAt := finishAt lane.finishAt }) rfl rfl rfl rfl
    (Finset.Subset.refl _) (fun _ _ _ use => ⟨use,.inr rfl⟩) (fun _ gone => gone)
theorem openLane_turns (t : Transfer) (moment : Nat) (estimate : Estimate) :
    Turns now t (t.openLane moment estimate) := by
  refine ⟨openLane_works ..,rfl,rfl,rfl,Finset.Subset.refl _,fun s lane' _ found use => ?_,fun s lane found gone => ?_⟩
  · rw [openLane_get] at found
    split_ifs at found
    · cases before : t.lanes.get? s with
      | none =>
        rw [before,Option.getD_none,Option.some.injEq] at found
        subst found
        exact .inl (fun range sent flying => by simp [Lane.new] at flying)
      | some lane =>
        rw [before,Option.getD_some,Option.some.injEq] at found
        subst found
        exact .inr ⟨lane,rfl,use,rfl⟩
    · exact .inr ⟨lane',found,use,rfl⟩
  · rw [openLane_get,found]
    split_ifs
    · exact ⟨lane,rfl,gone⟩
    · exact ⟨lane,rfl,gone⟩
theorem queueOrigin_turns {t : Transfer} (mixed : t.peerOnly = false) (now : Nat) (range : PieceRange) :
    Turns now t (t.queueOrigin now range) := by
  unfold queueOrigin
  rw [if_neg (by simp [mixed])]
  exact ((openLane_turns t now _).trans (extendQueue_turns _ _ _ _)).trans (issue_turns _ now .origin)
theorem takeAssignment_turns (now : Nat) (t : Transfer) (a : Assignment) : Turns now t (takeAssignment now t a) :=
  ((openLane_turns t now _).trans (extendQueue_turns _ _ _ _)).trans (issue_turns _ now a.source)
theorem moveAssignment_turns (now : Nat) (t : Transfer) (a : Assignment) : Turns now t (moveAssignment now t a) := by
  unfold moveAssignment
  split
  · exact Turns.refl t
  · exact (extendQueue_turns _ _ _ _).trans (issue_turns _ now a.source)
theorem assign_turns {t : Transfer} (mixed : t.peerOnly = false) (now : Nat) (needed : List Nat) :
    Turns now t (t.assign now needed) := by
  rcases assign_mixed mixed now needed with ⟨same,_⟩ | ⟨_,_,_,same⟩ | ⟨_,_,same⟩
  · rw [same]
    exact Turns.refl t
  · rw [same]
    exact queueOrigin_turns mixed now _
  · rw [same]
    refine Turns.trans ?_ (Turns.foldl _ (fun a _ u => takeAssignment_turns now u a) _)
    exact Turns.same (Works.quiet rfl rfl rfl) rfl rfl rfl rfl (Finset.Subset.refl _)
theorem retire_turns (t : Transfer) (s : Source) : Turns now t (t.retire s).1 := by
  have works := retire_works t s
  rcases retire_cases t s with ⟨_,same⟩ | ⟨_,_,same,_⟩
  · rw [same]
    exact Turns.refl t
  · rw [same] at works ⊢
    exact Turns.modify works (f := fun lane => { lane with retired := true, inFlight := [], queue := [] })
      rfl rfl rfl rfl
      (Finset.Subset.refl _) (fun _ _ _ use => by cases use) (fun _ _ => rfl)
theorem rebalanceOrigin_turns (t : Transfer) (now : Nat) : Turns now t (t.rebalanceOrigin now) := by
  rcases rebalanceOrigin_cases t now with same | ⟨origin,planned,_,_,_,_,same⟩
  · rw [same]
    exact Turns.refl t
  · rw [same]
    refine Turns.trans ?_ (Turns.foldl _ (fun a _ u => moveAssignment_turns now u a) _)
    split_ifs
    · exact Turns.modify (claimOrigin_works t _) (s := .origin) (f := fun lane =>
        { lane with queue := runs ((indices lane.queue).filter (fun index => index ∉ dealt planned.assignments)) })
        rfl rfl rfl rfl (Finset.Subset.refl _)
        (fun _ peer => by cases peer) (fun _ gone => gone)
    · exact Turns.refl t
theorem abandon_turns {t : Transfer} (mixed : t.peerOnly = false) (now : Nat) (p : Nat) :
    Turns now t (t.abandon now (.peer p)) := by
  have told : Turns now t (t.push (.abandon p)) :=
    Turns.same (push_works t rfl) rfl rfl rfl rfl (Finset.Subset.refl _)
  have taken := told.trans (retire_turns (t.push (.abandon p)) (.peer p))
  exact (taken.trans (assign_turns (taken.works.peerOnly.trans mixed) now _)).trans (rebalanceOrigin_turns _ now)

/-! ### No request is due at once again -/

/-- The request of a source is due later than now. -/
def Watched (now : Nat) (t : Transfer) (s : Source) : Prop := ∀ due, t.watchAt s = some due → now < due

theorem ceil_later {moment : ℚ} (later : (now : ℚ) < moment) : now < ⌈moment⌉.toNat := by
  have above : ((now : Int) : ℚ) < moment := by exact_mod_cast later
  have ceiling : (now : Int) < ⌈moment⌉ := Int.lt_ceil.mpr above
  omega
theorem silenceAt_later {range : PieceRange} {moment : ℚ} (silent : t.silenceAt s now range = some moment) :
    (now : ℚ) < moment := by
  have floor : (0 : ℚ) < silenceFloorMs := by norm_num [silenceFloorMs]
  unfold silenceAt at silent
  dsimp only at silent
  split at silent
  · cases silent
  · rename_i first _
    have limit : silenceFloorMs ≤ max silenceFloorMs (first * 3) := le_max_left _ _
    cases shared : positive t.sharedRate with
    | none =>
      rw [shared] at silent
      cases silent
      linarith
    | some best =>
      rw [shared] at silent
      cases silent
      have more := le_max_left (max silenceFloorMs (first * 3))
        ((t.floorAt : ℚ) - (((t.pieceRangeBytes range).2 : ℚ) - (t.pieceRangeBytes range).1) / best - now)
      exact lt_add_of_pos_right _ (lt_of_lt_of_le floor (limit.trans more))
theorem Turns.silenceAt (turns : Turns now t t') {lane lane' : Lane}
    (before : t.lanes.get? s = some lane) (after : t'.lanes.get? s = some lane')
    (first : lane.estimate.firstByteMs = lane'.estimate.firstByteMs) (sent : Nat) (range : PieceRange) :
    t'.silenceAt s sent range = t.silenceAt s sent range := by
  have size : t'.size = t.size := congrArg Fixed.size turns.works.fixed
  simp only [Transfer.silenceAt,before,after,Option.bind_some,first,turns.firstByte,turns.rate,turns.works.floorAt,
    pieceRangeBytes,turns.works.pieceSize,size]
theorem Turns.watched (turns : Turns now t t') (watched : Watched now t s) : Watched now t' s := by
  intro due reported
  unfold watchAt at reported
  split_ifs at reported with only
  cases found : t'.lanes.get? s with
  | none => rw [found] at reported; cases reported
  | some lane' =>
    simp only [found] at reported
    split_ifs at reported with idle
    simp only [not_or,Bool.not_eq_false,Bool.not_eq_true] at idle
    obtain ⟨peer,use,early⟩ := idle
    cases head : lane'.inFlight.head? with
    | none => rw [head] at reported; cases reported
    | some request =>
      obtain ⟨range,sent⟩ := request
      simp only [head] at reported
      rcases turns.lanes s lane' peer found use with now' | ⟨lane,before,use',same⟩
      · obtain ⟨rfl,silent⟩ := now' range sent head
        simp only [silent] at reported
        obtain ⟨here,limit,rfl⟩ := Option.map_eq_some_iff.mp reported
        exact ceil_later (silenceAt_later limit)
      · obtain ⟨head',byte,flow,checked,estimate⟩ := Lane.timing_eq same
        refine watched due ?_
        have mixed : ¬ t.peerOnly = true := by rwa [← turns.works.peerOnly]
        have isOpen : ¬ (s.isPeer = false ∨ lane.retired = true ∨ t.floorReached = true) := by
          simp [peer,use',← turns.floor,early]
        simp only [watchAt,if_neg mixed,before,if_neg isOpen,head',head,byte,flow,checked,
          ← turns.silenceAt before found estimate]
        exact reported
theorem Turns.retired (turns : Turns now t t')
    (found : t.lanes.get? s = some lane) (gone : lane.retired = true) : Watched now t' s := by
  obtain ⟨lane',found',gone'⟩ := turns.gone s lane found gone
  intro due reported
  unfold watchAt at reported
  split_ifs at reported
  rw [found'] at reported
  simp [gone'] at reported

/-! ### The endgame leaves no lane behind -/

/-- Every lane with requests and pieces of the endgame is projected later than now. -/
def Ahead (now : Nat) (t : Transfer) : Prop := ∀ s lane, t.lanes.get? s = some lane → lane.inFlight ≠ [] →
  (∃ i ∈ t.endgamePieces, lane.holds i) → (now : ℚ) < lane.finishAt

theorem Turns.endgamePieces (turns : Turns now t t') {i : Nat} (member : i ∈ t'.endgamePieces) :
    i ∈ t.endgamePieces ∧ i ∉ t'.duplicated := by
  have verified (j : Nat) : t'.isVerified j = t.isVerified j := turns.works.isVerified j
  unfold Transfer.endgamePieces at member ⊢
  dsimp only at member ⊢
  simp only [verified,turns.works.verified,turns.works.exclusive,turns.floor] at member
  split_ifs at member ⊢
  · cases member
  · obtain ⟨left,single⟩ := List.mem_filter.mp member
    have single' : i ∉ t'.duplicated := of_decide_eq_true single
    exact ⟨List.mem_filter.mpr ⟨left,decide_eq_true (fun before => single' (turns.duplicated before))⟩,single'⟩
theorem queueOrigin_ends (now : Nat) (range : PieceRange) {u : Transfer} (kept : u.finished = true ∨ Turns now t u) :
    (u.queueOrigin now range).finished = true ∨ Turns now t (u.queueOrigin now range) := by
  cases mode : u.peerOnly with
  | true =>
    refine .inl ?_
    simp only [queueOrigin,mode,if_true]
    rfl
  | false =>
    have turns := queueOrigin_turns mode now range
    exact kept.imp (fun ended => turns.works.finished.trans ended) (fun before => before.trans turns)
theorem endgame_turns (t : Transfer) (now : Nat) : (t.endgame now).finished = true ∨
    Turns now t (t.endgame now) ∧ (Ahead now (t.endgame now) ∨
      t.peerOnly = true ∧ (t.endgame now).peerOnlyEndgameSource = none) := by
  rw [endgame_target]
  cases chosen : t.endgameTarget now with
  | none =>
    refine .inr ⟨Turns.refl t,?_⟩
    unfold endgameTarget at chosen
    split_ifs at chosen with quiet only
    · refine .inl (fun s lane found busy left => ?_)
      obtain ⟨i,member,holds⟩ := left
      rcases quiet with none | each
      · rw [none] at member
        cases member
      · rcases each lane (OrderedMap.mem_values.mpr ⟨s,found⟩) with idle | others | later
        · exact absurd idle busy
        · exact absurd holds (others i member)
        · exact later
    · exact .inr ⟨only,chosen⟩
  | some s =>
    have marked : Turns now t t.markDuplicated :=
      Turns.same (Works.quiet rfl rfl rfl) rfl rfl rfl rfl Finset.subset_union_left
    have gone : ∀ {u : Transfer}, Turns now t.markDuplicated u → Turns now t u ∧ (Ahead now u ∨
        t.peerOnly = true ∧ u.peerOnlyEndgameSource = none) := fun later => by
      refine ⟨marked.trans later,.inl (fun s lane _ _ left => ?_)⟩
      obtain ⟨i,member,_⟩ := left
      obtain ⟨among,single⟩ := (marked.trans later).endgamePieces member
      exact absurd (later.duplicated (Finset.mem_union_right _ (List.mem_toFinset.mpr among))) single
    cases s with
    | origin =>
      exact (List.foldlRecOn (motive := fun u => u.finished = true ∨
        Turns now t.markDuplicated u) (runs t.endgamePieces)
        (fun u range => u.queueOrigin now range) (.inr (Turns.refl _))
        (fun u kept range _ => queueOrigin_ends now range kept)).imp id gone
    | peer p =>
      exact .inr (gone (Turns.foldl (f := giveTo now (.peer p)) _ (fun range _ u =>
        (extendQueue_turns u _ _ _).trans (issue_turns _ now _)) _))

/-! ### Pieces of origin that are moved are projected later -/

theorem sendQueue_subset (exclusive : Bool) (source : Source) (cap : Nat) (queue : List PieceRange) :
    ∀ (idle : Bool) (start : Nat) {i : Nat}, i ∈ indices ((sendQueue exclusive source cap idle start queue).1 ++
      (sendQueue exclusive source cap idle start queue).2) → i ∈ indices queue := by
  induction queue with
  | nil => intro idle start i member; simp [sendQueue] at member
  | cons range rest ih =>
    intro idle start i member
    unfold sendQueue at member
    dsimp only at member
    split_ifs at member with _ _ clipped
    · simpa using member
    · simpa using member
    · simp only [List.cons_append,List.nil_append,indices_cons,List.mem_append,mem_range_indices] at member ⊢
      obtain ⟨_,short⟩ := clipped
      rcases member with sent | kept | behind
      · exact .inl (by omega)
      · exact .inl (by omega)
      · exact .inr behind
    · simp only [List.cons_append,indices_cons,List.mem_append] at member ⊢
      exact member.imp id (fun later => ih false _ later)
theorem sending_finishAt (lane : Lane) (now : Nat) (sent left : List PieceRange) :
    (lane.sending now sent left).finishAt = lane.finishAt := by
  unfold Lane.sending
  dsimp only
  split_ifs <;> rfl
theorem issue_holds {t : Transfer} {now : Nat} {s s' : Source} {lane' : Lane}
    (found : (t.issue now s).lanes.get? s' = some lane') : ∃ lane, t.lanes.get? s' = some lane ∧
      lane'.finishAt = lane.finishAt ∧ ∀ i, lane'.holds i → lane.holds i := by
  unfold issue at found
  cases before : t.lanes.get? s with
  | none =>
    rw [before] at found
    exact ⟨lane',found,rfl,fun _ => id⟩
  | some lane =>
    simp only [before] at found
    split at found
    · exact ⟨lane',found,rfl,fun _ => id⟩
    · dsimp only at found
      rw [OrderedMap.get?_modify] at found
      split at found
      · rename_i own
        subst own
        rw [before,Option.map_some,Option.some.injEq] at found
        subst found
        refine ⟨lane,before,sending_finishAt ..,fun i holds => ?_⟩
        rw [Lane.holds_iff,(sending_work ..).2.2.2.1,(sending_work ..).1] at holds
        rw [Lane.holds_iff]
        refine ⟨holds.1,?_⟩
        have member := holds.2
        rw [List.append_assoc,indices_append,List.mem_append] at member
        rw [Lane.work,indices_append,List.mem_append]
        exact member.imp id (sendQueue_subset _ _ _ _ _ _)
      · exact ⟨lane',found,rfl,fun _ => id⟩
/-- Every lane with requests, or of a listed source, that has some of the pieces is
    projected later than now. -/
def Later (now : Nat) (pieces : List Nat) (sources : List Source) (t : Transfer) : Prop := ∀ s lane,
  t.lanes.get? s = some lane → lane.inFlight ≠ [] ∨ s ∈ sources → (∃ i ∈ pieces, lane.holds i) →
    (now : ℚ) < lane.finishAt
theorem moveAssignment_later {pieces : List Nat} {sources : List Source} {a : Assignment}
    (later : Later now pieces sources t) (mine : a.source ∈ sources)
    (projected : (∃ i ∈ indices a.ranges, i ∈ pieces) → 0 < a.projectedMs) :
    Later now pieces sources (moveAssignment now t a) := by
  unfold moveAssignment
  cases found : t.lanes.get? a.source with
  | none => exact later
  | some lane =>
    dsimp only
    intro s lane' after chosen left
    by_cases own : s = a.source
    · subst own
      obtain ⟨i,member,holds⟩ := left
      obtain ⟨queued,here,finish,kept⟩ := issue_holds after
      simp only [extendQueue,OrderedMap.get?_modify_self,found,Option.map_some,Option.some.injEq] at here
      subst here
      rw [finish]
      have held := Lane.holds_iff.mp (kept i holds)
      have inside := held.2
      simp only [Lane.work,indices_append,List.mem_append] at inside
      rcases inside with flying | waiting | given
      · exact lt_max_of_lt_left (later _ lane found (.inr mine) ⟨i,member,
          Lane.holds_iff.mpr ⟨held.1,by simp [Lane.work,flying]⟩⟩)
      · exact lt_max_of_lt_left (later _ lane found (.inr mine) ⟨i,member,
          Lane.holds_iff.mpr ⟨held.1,by simp [Lane.work,waiting]⟩⟩)
      · refine lt_max_of_lt_right ?_
        unfold projection
        exact lt_add_of_pos_right _ (lt_max_of_lt_left (projected ⟨i,given,member⟩))
    · rw [issue_others _ _ own,extendQueue,OrderedMap.get?_modify_of_ne _ _ own] at after
      exact later s lane' after chosen left
/-- Every piece has bytes. -/
def Sized (t : Transfer) : Prop := ∀ i < t.verified.length, 0 < pieceBytes t.size (commitmentPieceSize t.size) i
theorem Sized.works (sized : Sized t) (works : Works t t') : Sized t' := by
  have size : t'.size = t.size := congrArg Fixed.size works.fixed
  unfold Sized
  rw [works.verified,size]
  exact sized
theorem rebalanceOrigin_ahead (keyed : Keyed t) (sized : Sized t) (ahead : Ahead now t) :
    Ahead now (t.rebalanceOrigin now) := by
  have turns := rebalanceOrigin_turns t now
  by_cases none : t.endgamePieces = []
  · intro s lane _ _ left
    obtain ⟨i,member,_⟩ := left
    have := (turns.endgamePieces member).1
    rw [none] at this
    cases this
  have shared := (endgamePieces_shared none).1
  rcases rebalanceOrigin_cases t now with same | ⟨origin,planned,_,_,_,moved,same⟩
  · rwa [same]
  · rw [if_neg (by simp [shared])] at same
    have projected := movedPlan_projected moved
    obtain ⟨input,peers,split',staffed,spare,_⟩ := movedPlan_split moved
    -- A peer that takes pieces had none, so what it has is what it is given now.
    have first : Later now t.endgamePieces (planned.assignments.map (·.source)) t := by
      rintro s lane found (busy | chosen) ⟨i,member,holds⟩
      · exact ahead s lane found busy ⟨i,member,holds⟩
      · obtain ⟨a,listed,rfl⟩ := List.mem_map.mp chosen
        rw [split'] at listed
        obtain ⟨p,named,source⟩ := (split_proper input staffed).2 a listed
        obtain ⟨entry,live,free,estimate⟩ := spare p named
        have key : a.source = entry.1 := by rw [source,estimate,keyed _ _ (mem_livePeers.mp live).1]
        rw [key,(mem_livePeers.mp live).1] at found
        cases found
        have idle := free.2.1
        have work : entry.2.work = [] := by simp [Lane.work,idle.1,idle.2]
        rw [Lane.holds_iff,work] at holds
        cases holds.2
    have last : Later now t.endgamePieces (planned.assignments.map (·.source))
        (planned.assignments.foldl (moveAssignment now) t) := by
      refine List.foldlRecOn _ _ first (fun u later a listed => ?_)
      refine moveAssignment_later later (List.mem_map_of_mem listed) (fun some => ?_)
      obtain ⟨i,inside,left⟩ := some
      exact projected a listed ⟨i,inside,sized i (mem_endgamePieces left).1⟩
    rw [same]
    rw [same] at turns
    intro s lane found busy left
    obtain ⟨i,member,holds⟩ := left
    exact last s lane found (.inl busy) ⟨i,(turns.endgamePieces member).1,holds⟩

/-! ### Judging the watched requests -/

theorem checked_watched (hopeful : t.hopeless now s = false) : Watched now
    { t with lanes := t.lanes.modify s (fun lane => { lane with checkedAt := now }) } s := by
  intro due reported
  unfold watchAt at reported
  split at reported
  · cases reported
  · rename_i mixed
    dsimp only at reported
    rw [OrderedMap.get?_modify_self] at reported
    cases found : t.lanes.get? s with
    | none => simp [found] at reported
    | some lane =>
      simp only [found,Option.map_some] at reported
      split at reported
      · cases reported
      · rename_i used
        cases head : lane.inFlight.head? with
        | none => simp [head] at reported
        | some request =>
          obtain ⟨range,sent⟩ := request
          simp only [head] at reported
          simp only [not_or] at used
          cases first : lane.firstByteAt with
          | some moment =>
            simp only [first,Option.some.injEq] at reported
            have later : now ≤ max ((lane.flow.getLast?.map (·.1)).getD sent) now := le_max_right _ _
            have wait : 0 < stallCheckMs := by decide
            omega
          | none =>
            simp only [first,Option.map_eq_some_iff] at reported
            obtain ⟨moment,silent,rfl⟩ := reported
            have same : t.silenceAt s sent range = some moment := by
              rw [← silent]
              simp [silenceAt,found,pieceRangeBytes,floorAt]
            unfold hopeless at hopeful
            rw [if_neg mixed] at hopeful
            simp only [found,head,first,same,Option.map_some,Option.getD_some] at hopeful
            rw [if_neg (by simp only [not_or]; exact ⟨used.2.1,used.1⟩),decide_eq_false_iff_not,not_le] at hopeful
            exact ceil_later hopeful
theorem checked_others (t : Transfer) (s s' : Source) (differs : s' ≠ s) (watched : Watched now t s') : Watched now
    { t with lanes := t.lanes.modify s (fun lane => { lane with checkedAt := now }) } s' := by
  intro due reported
  refine watched due ?_
  rw [← reported]
  unfold watchAt silenceAt
  dsimp only
  rw [OrderedMap.get?_modify_of_ne _ _ differs]
  rfl
theorem abandon_watched (mixed : t.peerOnly = false) (lost : t.hopeless now s = true) :
    Turns now t (t.abandon now s) ∧ Watched now (t.abandon now s) s := by
  cases s with
  | origin =>
    unfold hopeless at lost
    rw [if_neg (by simp [mixed])] at lost
    split at lost
    · cases lost
    · split at lost
      · cases lost
      · rw [if_pos (.inr rfl)] at lost
        cases lost
  | peer p =>
    refine ⟨abandon_turns mixed now p,?_⟩
    have told : Turns now t (t.push (.abandon p)) :=
      Turns.same (push_works t rfl) rfl rfl rfl rfl (Finset.Subset.refl _)
    have taken := told.trans (retire_turns (t.push (.abandon p)) (.peer p))
    have later : Turns now ((t.push (.abandon p)).retire (.peer p)).1 (t.abandon now (.peer p)) :=
      (assign_turns (taken.works.peerOnly.trans mixed) now _).trans (rebalanceOrigin_turns _ now)
    rcases retire_cases (t.push (.abandon p)) (.peer p) with ⟨absent,_⟩ | ⟨lane,found,same,_⟩
    · unfold hopeless at lost
      rw [if_neg (by simp [mixed]),show t.lanes.get? (.peer p) = none from absent] at lost
      cases lost
    · have emptied : ((t.push (.abandon p)).retire (.peer p)).1.lanes.get? (.peer p) =
          some { lane with retired := true, inFlight := [], queue := [] } := by
        rw [same]
        dsimp only
        rw [OrderedMap.get?_modify_self,found]
        rfl
      exact later.retired emptied rfl
/-- The shell is asked to tick later than now, or not at all. -/
def MovesOn (now : Nat) (t : Transfer) : Prop := ∀ due, t.nextDeadline = some due → now < due
theorem MovesOn.finished (ended : t.finished = true) : MovesOn now t := by
  intro due reported
  rw [nextDeadline,if_pos ended] at reported
  cases reported
theorem lag_later (ahead : Ahead now t) : ∀ due ∈ (t.lanes.values.filter (fun lane => lane.inFlight ≠ [] ∧
    ∃ index ∈ t.endgamePieces, lane.holds index)).map (fun lane => ⌈lane.finishAt⌉.toNat), now < due := by
  intro due member
  obtain ⟨lane,listed,rfl⟩ := List.mem_map.mp member
  obtain ⟨among,busy⟩ := List.mem_filter.mp listed
  obtain ⟨s,found⟩ := OrderedMap.mem_values.mp among
  obtain ⟨flying,left⟩ := of_decide_eq_true busy
  exact ceil_later (ahead s lane found flying left)
theorem MovesOn.mixed (mixed : t.peerOnly = false) (floor : t.floorReached = false → now < t.floorAt)
    (watched : ∀ s, Watched now t s) (ahead : Ahead now t) : MovesOn now t := by
  intro due reported
  unfold nextDeadline at reported
  split at reported
  · cases reported
  dsimp only at reported
  rw [if_neg (by simp [mixed])] at reported
  have member := List.min?_mem reported
  simp only [List.mem_append] at member
  rcases member with (early | lag) | watch
  · split at early
    · cases early
    · rename_i isOpen
      rw [List.mem_singleton.mp early]
      exact floor (by simpa using isOpen)
  · exact lag_later ahead due lag
  · obtain ⟨s,_,reported⟩ := List.mem_filterMap.mp watch
    exact watched s due reported
theorem Turns.floorAt_later (turns : Turns now t t') (floor : t.floorReached = false → now < t.floorAt) :
    t'.floorReached = false → now < t'.floorAt := by
  rw [turns.floor,turns.works.floorAt]
  exact floor
theorem judge_moves_on (now : Nat) (sources : List Source) : ∀ {t : Transfer}, t.peerOnly = false → Keyed t → Sized t →
    (t.floorReached = false → now < t.floorAt) → (∀ s, s ∉ sources → Watched now t s) →
      MovesOn now (judge now sources t) := by
  induction sources with
  | nil =>
    intro t mixed keyed sized floor watched
    unfold judge
    rcases endgame_turns t now with ended | ⟨turns,ahead | only⟩
    · rw [rebalanceOrigin_over (.inl ended)]
      exact .finished ended
    · have both := turns.trans (rebalanceOrigin_turns (t.endgame now) now)
      exact .mixed (both.works.peerOnly.trans mixed) (both.floorAt_later floor)
        (fun s => both.watched (watched s List.not_mem_nil))
        (rebalanceOrigin_ahead (endgame_keyed keyed now) (sized.works turns.works) ahead)
    · rw [mixed] at only
      cases only.1
  | cons s rest ih =>
    intro t mixed keyed sized floor watched
    unfold judge
    split
    · rename_i ended
      exact .finished ended
    split
    · rename_i lost
      obtain ⟨turns,gone⟩ := abandon_watched mixed lost
      refine ih (turns.works.peerOnly.trans mixed) (abandon_keyed keyed now s) (sized.works turns.works)
        (turns.floorAt_later floor) (fun s' apart => ?_)
      by_cases own : s' = s
      · rw [own]
        exact gone
      · exact turns.watched (watched s' (by simp [own,apart]))
    · rename_i hopeful
      refine ih mixed (KeyedLanes.modify keyed (fun _ => rfl)) sized floor (fun s' apart => ?_)
      by_cases own : s' = s
      · rw [own]
        exact checked_watched (by simpa using hopeful)
      · exact checked_others t s s' own (watched s' (by simp [own,apart]))

/-! ### A tick -/

theorem reachFloor_reached (mixed : t.peerOnly = false) : (t.reachFloor now).floorReached = true := by
  unfold reachFloor
  dsimp only
  have cancelled : Turns now { t with floorReached := true }
      (t.lateLanes.foldl cancelLane ({ t with floorReached := true },[])).1 :=
    List.foldlRecOn (motive := fun state : Transfer × List Nat => Turns now { t with floorReached := true } state.1)
      t.lateLanes cancelLane (Turns.refl _) (fun state turns s _ => by
        refine turns.trans (Turns.trans ?_ (retire_turns (state.1.cancelSource s) s))
        cases s with
        | origin => exact Turns.refl _
        | peer p => exact Turns.same (push_works _ rfl) rfl rfl rfl rfl (Finset.Subset.refl _))
  have given : ∀ ranges : List PieceRange, Turns now { t with floorReached := true } (ranges.foldl
      (fun t range => t.queueOrigin now range) (t.lateLanes.foldl cancelLane ({ t with floorReached := true },[])).1) :=
    fun ranges => List.foldlRecOn (motive := Turns now { t with floorReached := true }) ranges _ cancelled
      (fun u turns range _ => turns.trans (queueOrigin_turns (turns.works.peerOnly.trans mixed) now range))
  exact (given _).floor
theorem tick_later (keyed : Keyed t) (sized : Sized t) : MovesOn now (t.tick now) := by
  unfold tick
  split
  · rename_i ended
    exact .finished ended
  split
  · rename_i only
    split
    · exact .finished rfl
    · rename_i early
      rcases endgame_turns t now with ended | ⟨turns,ahead⟩
      · exact .finished ended
      · intro due reported
        have floor : now < (t.endgame now).floorAt := by rw [turns.works.floorAt]; omega
        unfold nextDeadline at reported
        split at reported
        · cases reported
        dsimp only at reported
        rw [if_pos (turns.works.peerOnly.trans only)] at reported
        split at reported
        · cases reported
          exact floor
        · rename_i home
          have member := List.min?_mem reported
          rcases List.mem_append.mp member with lag | last
          · exact lag_later (ahead.resolve_right (fun none => home none.2)) due lag
          · rw [List.mem_singleton.mp last]
            exact floor
  · rename_i mixed
    have mixed : t.peerOnly = false := by simpa using mixed
    split
    · have reached : (t.reachFloor now).floorReached = true := reachFloor_reached mixed
      have works := reachFloor_works mixed now
      refine .mixed (works.peerOnly.trans mixed) (fun isOpen => by rw [reached] at isOpen; cases isOpen)
        (fun s due reported => ?_)
        (fun s lane _ _ left => ?_)
      · unfold watchAt at reported
        split at reported
        · cases reported
        split at reported
        · cases reported
        · rw [if_pos (.inr (.inr reached))] at reported
          cases reported
      · obtain ⟨i,member,_⟩ := left
        rw [endgamePieces,if_pos (.inr (.inl reached))] at member
        cases member
    · rename_i floor
      refine judge_moves_on now _ mixed keyed sized (fun isOpen => ?_) (fun s apart due reported => ?_)
      · by_contra late
        exact floor ⟨isOpen,by omega⟩
      · refine absurd (List.mem_filter.mpr ⟨?_,by simp [reported]⟩) apart
        cases found : t.lanes.get? s with
        | none => simp [watchAt,found] at reported
        | some lane => exact OrderedMap.mem_keys.mpr ⟨lane,found⟩
end

variable (sha256 : List UInt8 → Digest)

theorem run_keyed (keyed : Keyed t) (events : List Event) : Keyed (after sha256 t events) := by
  induction events using List.reverseRecOn with
  | nil => exact keyed
  | append_singleton events e ih =>
    rw [after_concat]
    exact handle_keyed sha256 ih e
theorem run_sized {config : TransferConfig} {size : Nat} {digest : String} {pieces : List String} {deadline : Nat}
    (made : new config size digest pieces deadline = some t ∨
      (new config size digest pieces deadline).bind withExclusiveOrigin = some t ∨
      newPeerOnly config size digest pieces deadline =
        some t) (events : List Event) : Sized (after sha256 t events) := by
  have counted : pieceCount size = some pieces.length := by
    rcases made with plain | exclusive | only
    · exact new_counted plain
    · obtain ⟨_,plain,_⟩ := Option.bind_eq_some_iff.mp exclusive
      exact new_counted plain
    · obtain ⟨_,plain,_⟩ := Option.map_eq_some_iff.mp only
      exact new_counted plain
  obtain ⟨o,first,size',piece,count,_⟩ := made_streams sha256 made
  have same : (after sha256 t events).object = o := (run_streams events first).object
  intro i inside
  have length : (after sha256 t events).verified.length = pieces.length := (congrArg Object.count same).trans count
  rw [length] at inside
  rw [show (after sha256 t events).size = size from (congrArg Object.size same).trans size',pieceBytes]
  have covers := (pieceCount_covers counted).2
  have low : i * commitmentPieceSize size ≤ (pieces.length - 1) * commitmentPieceSize size :=
    Nat.mul_le_mul_right _ (by omega)
  have positive := pieceSize_pos size
  omega
/-- A tick moves the timer on: in every run of a transfer of any mode, whatever the
    deadline was, the next one after a tick is later than the tick. -/
theorem tick_moves_on {config : TransferConfig} {size : Nat} {digest : String} {pieces : List String} {deadline : Nat}
    {t : Transfer} (made : new config size digest pieces deadline = some t ∨
      (new config size digest pieces deadline).bind withExclusiveOrigin = some t ∨
      newPeerOnly config size digest pieces deadline = some t) (events : List Event) (now : Nat) :
    ∀ due, ((after sha256 t events).tick now).nextDeadline = some due → now < due := by
  have newborn := (made_newborn made).1
  have keyed : Keyed t := fun s lane found => by rw [newborn.lanes] at found; cases found
  exact tick_later (run_keyed sha256 keyed events) (run_sized sha256 made events)

private def twoOfObject : Option Transfer := new ⟨1,0⟩ 131072 zeroDigest (List.replicate 2 zeroDigest) 10000
private def twoRated : Event := .start 0 [⟨.peer 1,some 100,some 100⟩,⟨.peer 2,some 50,some 40⟩]
  ⟨.origin,some 1,some 20⟩ none none []
/-- A peer is silent for 300 ms: the tick at that deadline abandons it, and asks for 550. -/
theorem tick_moves_on_silent : ∃ t, new ⟨1,0⟩ 131072 zeroDigest (List.replicate 2 zeroDigest) 10000 = some t ∧
    (after (fun _ => []) t [twoRated]).nextDeadline = some 300 ∧
    ((after (fun _ => []) t [twoRated]).tick 300).nextDeadline = some 550 ∧ 300 < 550 := by
  obtain ⟨t,made⟩ := Option.isSome_iff_exists.mp (by decide +kernel : twoOfObject.isSome = true)
  have evaluated : twoOfObject.map (fun t => ((after (fun _ => []) t [twoRated]).nextDeadline,
      ((after (fun _ => []) t [twoRated]).tick 300).nextDeadline)) = some (some 300,some 550) := by
    decide +kernel
  rw [made] at evaluated
  obtain ⟨before,next⟩ := Prod.mk.inj (Option.some.inj evaluated)
  exact ⟨t,made,before,next,tick_moves_on (fun _ => []) (.inl made) [twoRated] 300 550 next⟩
end Transfer
end RelaySwarm.Transfers
