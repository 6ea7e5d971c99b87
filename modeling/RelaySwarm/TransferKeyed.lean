import RelaySwarm.TransferEnding

/-!
Every lane is filed under the source of its estimate, in every run. No call changes the
source of an estimate, and a lane is opened only under it (`openLane_keyed`), so this
holds whatever is called, started again or not.
-/
namespace RelaySwarm.Transfers
open Pieces Planning
namespace Transfer

/-- Every lane is filed under the source of its estimate. -/
def KeyedLanes (lanes : OrderedMap Source Lane) : Prop := ∀ s lane, lanes.get? s = some lane → lane.estimate.source = s
abbrev Keyed (t : Transfer) : Prop := KeyedLanes t.lanes

theorem KeyedLanes.modify {lanes : OrderedMap Source Lane} (keyed : KeyedLanes lanes) {s : Source} {f : Lane → Lane}
    (kept : ∀ lane, (f lane).estimate.source = lane.estimate.source) : KeyedLanes (lanes.modify s f) := by
  intro s' lane' found
  rw [OrderedMap.get?_modify] at found
  split_ifs at found
  · obtain ⟨lane,before,rfl⟩ := Option.map_eq_some_iff.mp found
    exact (kept lane).trans (keyed s' lane before)
  · exact keyed s' lane' found

section
variable {t : Transfer}

theorem Keyed.foldl {α : Type} {f : Transfer → α → Transfer} (each : ∀ t a, Keyed t → Keyed (f t a)) (as : List α) :
    ∀ {t : Transfer}, Keyed t → Keyed (as.foldl f t) := by
  induction as with
  | nil => exact id
  | cons a rest ih => exact fun keyed => ih (each _ a keyed)

/-! ### Work on the lanes -/

theorem issue_keyed (keyed : Keyed t) (now : Nat) (s : Source) : Keyed (t.issue now s) := by
  unfold issue
  cases t.lanes.get? s with
  | none => exact keyed
  | some lane =>
    dsimp only
    split_ifs
    · exact keyed
    all_goals
      refine KeyedLanes.modify keyed (fun lane => ?_)
      unfold Lane.sending
      split_ifs <;> rfl
theorem openLane_keyed (keyed : Keyed t) (now : Nat) (estimate : Estimate) : Keyed (t.openLane now estimate) := by
  intro s lane found
  rw [openLane,OrderedMap.get?_orInsert] at found
  split_ifs at found with own
  · cases before : t.lanes.get? estimate.source with
    | none =>
      rw [before,Option.getD_none,Option.some.injEq] at found
      rw [← found,own]
      rfl
    | some old =>
      rw [before,Option.getD_some,Option.some.injEq] at found
      rw [← found,own]
      exact keyed _ old before
  · exact keyed s lane found
theorem extendQueue_keyed (keyed : Keyed t) (s : Source) (ranges : List PieceRange) (finishAt : ℚ → ℚ) :
    Keyed (t.extendQueue s ranges finishAt) := KeyedLanes.modify keyed (fun _ => rfl)
theorem fail_keyed (keyed : Keyed t) : Keyed t.fail := by
  intro s lane found
  rw [show t.fail.lanes = t.lanes.mapValues (fun _ lane => { lane with inFlight := [], queue := [] }) from rfl,
    OrderedMap.get?_mapValues] at found
  obtain ⟨old,before,rfl⟩ := Option.map_eq_some_iff.mp found
  exact keyed s old before
theorem queueOrigin_keyed (keyed : Keyed t) (now : Nat) (range : PieceRange) : Keyed (t.queueOrigin now range) := by
  unfold queueOrigin
  split_ifs
  · exact fail_keyed keyed
  · exact issue_keyed (extendQueue_keyed (openLane_keyed keyed now _) _ _ _) now .origin
theorem takeAssignment_keyed (keyed : Keyed t) (now : Nat) (a : Assignment) : Keyed (takeAssignment now t a) :=
  issue_keyed (extendQueue_keyed (openLane_keyed keyed now _) _ _ _) now a.source
theorem moveAssignment_keyed (keyed : Keyed t) (now : Nat) (a : Assignment) : Keyed (moveAssignment now t a) := by
  unfold moveAssignment
  split
  · exact keyed
  · exact issue_keyed (extendQueue_keyed keyed _ _ _) now a.source
theorem retire_keyed (keyed : Keyed t) (s : Source) : Keyed (t.retire s).1 := by
  unfold retire
  cases t.lanes.get? s with
  | none => exact keyed
  | some lane => exact KeyedLanes.modify keyed (fun _ => rfl)
theorem rebalanceOrigin_keyed (keyed : Keyed t) (now : Nat) : Keyed (t.rebalanceOrigin now) := by
  rcases rebalanceOrigin_cases t now with same | ⟨origin,planned,_,_,_,_,same⟩
  · rwa [same]
  · rw [same]
    refine Keyed.foldl (fun u a keyed' => moveAssignment_keyed keyed' now a) _ ?_
    split_ifs
    · exact KeyedLanes.modify keyed (fun _ => rfl)
    · exact keyed

/-! ### Refills of a peer-only transfer -/

theorem refillAssignment_keyed (keyed : Keyed t) (now : Nat) (a : Assignment) : Keyed (refillAssignment now t a) := by
  unfold refillAssignment
  split
  · exact keyed
  · exact issue_keyed (t := { t.extendQueue a.source a.ranges (fun _ => projection now a) with
      peerPending := t.peerPending.filter (fun index => index ∉ indices a.ranges) })
      (extendQueue_keyed keyed a.source a.ranges (fun _ => projection now a)) now a.source
theorem refillProbe_keyed (keyed : Keyed t) (now : Nat) (s : Source) (index : Nat) (pending : List Nat) :
    Keyed (refillProbe now t s index pending) := by
  unfold refillProbe
  dsimp only
  exact issue_keyed (extendQueue_keyed (by exact keyed) s _ _) now s
theorem refillProbes_keyed (now : Nat) (sources : List Source) :
    ∀ {t : Transfer}, Keyed t → Keyed (refillProbes now sources t) := by
  induction sources with
  | nil => exact id
  | cons s rest ih =>
    intro t keyed
    unfold refillProbes
    cases t.peerPending with
    | nil => exact keyed
    | cons index pending => exact ih (refillProbe_keyed keyed now s index pending)
theorem refillPeerOnly_keyed (keyed : Keyed t) (now : Nat) : Keyed (t.refillPeerOnly now) := by
  unfold refillPeerOnly
  dsimp only
  split_ifs
  · exact keyed
  · exact fail_keyed keyed
  · exact fail_keyed keyed
  · exact keyed
  · refine refillProbes_keyed now _ ?_
    unfold refillIdle
    dsimp only
    split_ifs
    · exact keyed
    · exact Keyed.foldl (fun u a keyed' => refillAssignment_keyed keyed' now a) _ keyed
theorem assign_keyed (keyed : Keyed t) (now : Nat) (needed : List Nat) : Keyed (t.assign now needed) := by
  have many : Keyed (assign.assignMany t now needed) :=
    Keyed.foldl (fun u a keyed' => takeAssignment_keyed keyed' now a) _ keyed
  unfold assign
  split_ifs
  · refine refillPeerOnly_keyed (Keyed.foldl (fun u i keyed' => ?_) _ keyed) now
    unfold pend
    split_ifs
    · exact keyed'
    · exact keyed'
  · exact keyed
  · split
    · exact queueOrigin_keyed keyed now _
    · exact many
  · split <;> exact many

/-! ### Calls -/

theorem reassign_keyed (keyed : Keyed t) (now : Nat) (s : Source) : Keyed (t.reassign now s) :=
  assign_keyed (retire_keyed keyed s) now _
theorem abandon_keyed (keyed : Keyed t) (now : Nat) (s : Source) : Keyed (t.abandon now s) := by
  cases s with
  | origin => exact keyed
  | peer p => exact rebalanceOrigin_keyed (reassign_keyed (t := t.push _) keyed now _) now
theorem failed_keyed (keyed : Keyed t) (now : Nat) (s : Source) : Keyed (t.failed now s) := by
  unfold failed
  split_ifs
  · exact keyed
  · exact keyed
  · exact fail_keyed keyed
  · split
    · exact keyed
    · split_ifs
      · exact keyed
      · exact rebalanceOrigin_keyed (reassign_keyed keyed now s) now
theorem badPiece_keyed (keyed : Keyed t) (now : Nat) (s : Source) : Keyed (t.badPiece now s) := by
  cases s with
  | origin => exact fail_keyed keyed
  | peer p => exact assign_keyed (retire_keyed (t := t.push _) keyed _) now _
theorem cancelSource_keyed (keyed : Keyed t) (s : Source) : Keyed (t.cancelSource s) := by
  cases s with
  | origin => exact keyed
  | peer p => exact keyed
theorem dropRedundant_keyed (keyed : Keyed t) (now : Nat) (winner : Source) : Keyed (t.dropRedundant now winner) :=
  Keyed.foldl (fun _ s keyed' => reassign_keyed (cancelSource_keyed keyed' s) now s) _ keyed
theorem measure_keyed (keyed : Keyed t) (now : Nat) (s : Source) (sent : Nat) (first : Option Nat) (bytes : Nat) :
    Keyed (t.measure now s sent first bytes) := by
  unfold measure
  split
  · exact keyed
  · split_ifs
    · exact keyed
    · exact KeyedLanes.modify keyed (fun _ => rfl)
theorem endgame_keyed (keyed : Keyed t) (now : Nat) : Keyed (t.endgame now) := by
  unfold endgame
  dsimp only
  split_ifs
  · exact keyed
  · split
    · exact keyed
    · refine Keyed.foldl (fun u range keyed' => ?_) _ keyed
      split
      · exact queueOrigin_keyed keyed' now range
      · exact issue_keyed (extendQueue_keyed keyed' _ _ _) now _
  · refine Keyed.foldl (fun u range keyed' => ?_) _ keyed
    split
    · exact queueOrigin_keyed keyed' now range
    · exact issue_keyed (extendQueue_keyed keyed' _ _ _) now _
theorem reachFloor_keyed (keyed : Keyed t) (now : Nat) : Keyed (t.reachFloor now) := by
  have cancelled : Keyed (t.lateLanes.foldl cancelLane ({ t with floorReached := true },[])).1 :=
    List.foldlRecOn (motive := fun state : Transfer × List Nat => Keyed state.1) t.lateLanes cancelLane keyed
      (fun _ keyed' s _ => retire_keyed (cancelSource_keyed keyed' s) s)
  exact Keyed.foldl (fun u range keyed' => queueOrigin_keyed keyed' now range) _ cancelled
theorem judge_keyed (now : Nat) (sources : List Source) : ∀ {t : Transfer}, Keyed t → Keyed (judge now sources t) := by
  induction sources with
  | nil => exact fun keyed => rebalanceOrigin_keyed (endgame_keyed keyed now) now
  | cons s rest ih =>
    intro t keyed
    unfold judge
    split_ifs
    · exact keyed
    · exact ih (abandon_keyed keyed now s)
    · exact ih (KeyedLanes.modify keyed (fun _ => rfl))
theorem tick_keyed (keyed : Keyed t) (now : Nat) : Keyed (t.tick now) := by
  unfold tick
  split_ifs
  · exact keyed
  · exact fail_keyed keyed
  · exact endgame_keyed keyed now
  · exact reachFloor_keyed keyed now
  · exact judge_keyed now _ keyed
theorem startInner_keyed (keyed : Keyed t) (now : Nat) (peers : List Estimate) (origin : Option Estimate)
    (first rate : Option ℚ) (probes : List Nat) : Keyed (t.startInner now peers origin first rate probes) := by
  unfold startInner
  dsimp only
  split_ifs
  · exact keyed
  all_goals
    refine assign_keyed ?_ now _
    refine Keyed.foldl (fun u estimate keyed' => ?_) _ (by exact keyed)
    unfold openSource
    split_ifs
    · exact keyed'
    · exact openLane_keyed keyed' now estimate
theorem progress_keyed (keyed : Keyed t) (now : Nat) (s : Source) (received : Nat) :
    Keyed (t.progress now s received) := by
  have noted : Keyed { t with lanes := t.lanes.modify s (fun lane => lane.progressed now received) } :=
    KeyedLanes.modify keyed (fun _ => rfl)
  unfold progress
  split_ifs
  · exact tick_keyed keyed now
  · exact keyed
  · split
    · exact keyed
    · dsimp only
      split_ifs
      · exact keyed
      · exact abandon_keyed noted now s
      · exact noted

variable (sha256 : List UInt8 → Digest)

theorem checkPieces_keyed (bytes : List UInt8) (start : Nat) (pieces : List Nat) : ∀ {c : Checked}, Keyed c.transfer →
    Keyed (pieces.foldl (checkPiece sha256 bytes start) c).transfer := by
  induction pieces with
  | nil => exact id
  | cons i rest ih =>
    intro c keyed
    refine ih ?_
    rcases checkPiece_cases sha256 bytes start c i with ⟨_,same⟩ | ⟨_,_,same⟩ | ⟨_,same⟩
    · rwa [same]
    · rw [same]
      exact keyed
    · rwa [same]
theorem accept_keyed {c : Checked} (keyed : Keyed c.transfer) (now : Nat) (s : Source) (sent : Nat) (first : Option Nat)
    (bytes : Nat) : Keyed (accept sha256 c now s sent first bytes) := by
  have ended : Keyed (if c.fresh then c.transfer.endProbe s else c.transfer) := by
    split_ifs
    · exact keyed
    · exact keyed
  have dropped := dropRedundant_keyed (measure_keyed ended now s sent first bytes) now s
  unfold accept
  dsimp only
  generalize (measure _ now s sent first bytes).dropRedundant now s = u at dropped ⊢
  split
  · unfold finish
    split
    · exact fail_keyed dropped
    · exact fail_keyed dropped
  · have issued := issue_keyed dropped now s
    unfold refill
    split
    · exact refillPeerOnly_keyed issued now
    · exact rebalanceOrigin_keyed issued now
theorem delivered_keyed (keyed : Keyed t) (now : Nat) (s : Source) (range : PieceRange) (bytes : List UInt8) :
    Keyed (t.delivered sha256 now s range bytes) := by
  unfold delivered
  split
  · exact tick_keyed keyed now
  split
  · exact keyed
  cases t.lanes.get? s with
  | none => exact keyed
  | some lane =>
    dsimp only
    cases lane.inFlight.find? (·.1 = range) with
    | none => exact keyed
    | some sent =>
      dsimp only
      have answered : Keyed { t with lanes := t.lanes.modify s (fun lane => lane.answered range) } :=
        KeyedLanes.modify keyed (fun _ => rfl)
      have checked := checkPieces_keyed sha256 bytes (t.pieceRangeBytes range).1 range.indices
        (c := ⟨{ t with lanes := t.lanes.modify s (fun lane => lane.answered range) },false,false⟩) answered
      split
      · exact failed_keyed keyed now s
      split
      · exact badPiece_keyed checked now s
      · exact accept_keyed sha256 checked now s _ _ _
theorem handle_keyed (keyed : Keyed t) (e : Event) : Keyed (handle sha256 t e) := by
  cases e with
  | start now peers origin first rate probes => exact startInner_keyed keyed now peers _ first rate probes
  | startPeerOnly now peers first rate probes =>
    unfold handle startPeerOnlyWithProbePeers
    dsimp only
    split_ifs
    · exact startInner_keyed keyed now peers none first rate probes
    · exact keyed
  | delivered now source range bytes => exact delivered_keyed sha256 keyed now source range bytes
  | failed now source => exact failed_keyed keyed now source
  | progress now source received => exact progress_keyed keyed now source received
  | tick now => exact tick_keyed keyed now
end
end Transfer
end RelaySwarm.Transfers
