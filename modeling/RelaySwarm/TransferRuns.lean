import RelaySwarm.TransferCourse

/-!
Whole runs. A later call first takes note of its event (`Entered`): a lane that
failed is retired, a response is taken out of flight and checked; then acts follow,
with the endgame of a tick among them, and the call may end the transfer (`Ending`).
`handle_cases` says this once for every call, and `handle_induction` is the rule for
what a call preserves; `run_induction` is the rule for runs.
-/
namespace RelaySwarm.Transfers
open Pieces Planning
namespace Transfer

variable {t t' : Transfer} {e : Event} {now sent n : Nat} {lane : Lane} {range : PieceRange} {source : Source}
inductive Ending (sha256 : List UInt8 → Digest) (t : Transfer) : Transfer → Prop
  | runs : Ending sha256 t t
  | fails : Ending sha256 t t.fail
  | finishes (complete : t.verified.all id = true) : Ending sha256 t (t.finish sha256)

/-- What a call does before any act: the state its acts begin from. -/
inductive Entered (sha256 : List UInt8 → Digest) (t : Transfer) : Event → Transfer → Prop
  | tick (now : Nat) : Entered sha256 t (.tick now) t
  | progress (now : Nat) (source : Source) (received : Nat) : Entered sha256 t (.progress now source received) t
  | late {now : Nat} {source : Source} {range : PieceRange} {bytes : List UInt8} (only : t.peerOnly = true)
      (floor : t.floorAt ≤ now) : Entered sha256 t (.delivered now source range bytes) t
  | unasked {now : Nat} {source : Source} {range : PieceRange} {bytes : List UInt8}
      (none : ∀ lane, t.lanes.get? source = some lane → ∀ sent ∈ lane.inFlight, sent.1 ≠ range) :
      Entered sha256 t (.delivered now source range bytes) t
  | short {now : Nat} {lane : Lane} {sent : Nat} {range : PieceRange} {bytes : List UInt8}
      (found : t.lanes.get? .origin = some lane) (flying : (range,sent) ∈ lane.inFlight)
      (length : bytes.length ≠ t.rangeLength range) : Entered sha256 t (.delivered now .origin range bytes) t
  | unused {now : Nat} {source : Source} (none : source.isPeer = true → ¬ InUse t source) :
      Entered sha256 t (.failed now source) t
  | fails {now : Nat} {p : Nat} (used : InUse t (.peer p)) :
      Entered sha256 t (.failed now (.peer p)) (t.retire (.peer p)).1
  | wrong {now : Nat} {p : Nat} {lane : Lane} {sent : Nat} {range : PieceRange} {bytes : List UInt8}
      (found : t.lanes.get? (.peer p) = some lane) (flying : (range,sent) ∈ lane.inFlight)
      (early : t.peerOnly = true → now < t.floorAt) (length : bytes.length ≠ t.rangeLength range) :
      Entered sha256 t (.delivered now (.peer p) range bytes) (t.retire (.peer p)).1
  | spoiled {now : Nat} {source : Source} {lane : Lane} {sent : Nat} {range : PieceRange} {bytes : List UInt8}
      (found : t.lanes.get? source = some lane) (flying : (range,sent) ∈ lane.inFlight)
      (early : t.peerOnly = true → now < t.floorAt) (length : bytes.length = t.rangeLength range)
      (bad : (response sha256 t source range bytes).bad = true) :
      Entered sha256 t (.delivered now source range bytes) (response sha256 t source range bytes).transfer
  | answered {now : Nat} {source : Source} {lane : Lane} {sent : Nat} {range : PieceRange} {bytes : List UInt8}
      (found : t.lanes.get? source = some lane) (flying : (range,sent) ∈ lane.inFlight)
      (early : t.peerOnly = true → now < t.floorAt) (length : bytes.length = t.rangeLength range)
      (good : (response sha256 t source range bytes).bad = false) :
      Entered sha256 t (.delivered now source range bytes) (credited (response sha256 t source range bytes) source)

section
variable (sha256 : List UInt8 → Digest)

theorem Entered.ready {t u : Transfer} (entered : Entered sha256 t e u) (ready : Ready t) : Ready u := by
  cases entered with
  | tick | progress | late | unasked | short | unused => exact ready
  | fails | wrong => exact retire_ready ready _
  | spoiled found flying => exact response_ready sha256 ready found flying _
  | answered found flying => exact credited_ready (response_ready sha256 ready found flying _) _
theorem Course.ending (course : Course t t') : ∃ u, Acts t u ∧ Ending sha256 u t' := by
  rcases course with acts | ⟨u,acts,rfl⟩
  · exact ⟨t',acts,.runs⟩
  · exact ⟨u,acts,.fails⟩
theorem tick_late (running : t.finished = false) (only : t.peerOnly = true)
    (floor : t.floorAt ≤ now) : ∃ u, Acts t u ∧ Ending sha256 u (t.tick now) := by
  refine ⟨{ t with floorReached := true },
    .single (.give (.notes (Quiet.same rfl rfl rfl rfl rfl rfl rfl (fun _ => rfl)))),?_⟩
  have same : t.tick now = { t with floorReached := true }.fail := by
    unfold tick
    rw [if_neg (by simp [running]),if_pos only,if_pos floor]
  rw [same]
  exact .fails
theorem atEndgame_peerOnly (only : t.peerOnly = true) (now : Nat) : t.atEndgame now = t := by
  have none : t.watched = [] := by
    unfold watched
    rw [List.filter_eq_nil_iff]
    intro s _
    simp [watchAt,only]
  unfold atEndgame
  rw [none]
  rfl
theorem endgame_reached (reached : t.floorReached = true) (now : Nat) : t.endgame now = t := by
  refine endgame_idle ?_
  unfold endgameTarget
  rw [if_pos]
  left
  unfold endgamePieces
  dsimp only
  rw [if_pos (.inr (.inl reached))]
/-- What a tick before the floor passes through: the endgame, after the acts that
    the judged requests lead to. -/
structure Passes (t : Transfer) (e : Event) (u : Transfer) (now : Nat) : Prop where
  ticks : e = .tick now
  early : now < t.floorAt
  before : Acts t (t.atEndgame now)
  later : Acts ((t.atEndgame now).endgame now) u

theorem tick_passes (ready : Ready t) (busy : t.peerOnly = false → ∀ s, Busy t s) (now : Nat) :
    ∃ w, (Acts t w ∨ Passes t (.tick now) w now) ∧ Ending sha256 w (t.tick now) := by
  rcases tick_cases ready busy now with ⟨only,floor,_⟩ | ⟨only,before,same⟩ | ⟨_,_,_,_,acts⟩ | ⟨_,isOpen,acts,more⟩
  · obtain ⟨w,acts,ending⟩ := tick_late sha256 ready.running only floor
    exact ⟨w,.inl acts,ending⟩
  · refine ⟨t.tick now,.inr ⟨rfl,before,?_,?_⟩,.runs⟩
    · rw [atEndgame_peerOnly only]
    · rw [atEndgame_peerOnly only,same]
  · exact ⟨_,.inl acts,.runs⟩
  · by_cases before : now < t.floorAt
    · exact ⟨_,.inr ⟨rfl,before,acts,more⟩,.runs⟩
    · have reached := acts.floor (isOpen.resolve_right before)
      rw [endgame_reached reached] at more
      exact ⟨_,.inl (acts.trans more),.runs⟩
/-- A peer's progress is noted, and a hopeless request of a mixed transfer is
    abandoned; a peer-only transfer at its floor ticks instead. -/
theorem progress_cases (ready : Ready t) (now : Nat) (s : Source) (received : Nat) :
    (t.peerOnly = true ∧ t.floorAt ≤ now ∧ t.progress now s received = t.tick now) ∨
      Acts t (t.progress now s received) := by
  unfold progress
  by_cases floor : t.peerOnly = true ∧ t.floorAt ≤ now
  · rw [if_pos floor]; exact .inl ⟨floor.1,floor.2,rfl⟩
  rw [if_neg floor]
  right
  by_cases concluded : t.finished = true ∨ t.floorReached = true
  · rw [if_pos concluded]
  rw [if_neg concluded]
  cases t.lanes.get? s with
  | none => exact .refl
  | some lane =>
    dsimp only
    have noted : Act t { t with lanes := t.lanes.modify s (fun lane => lane.progressed now received) } :=
      .give (.notes (Quiet.modify t s (fun _ => rfl)))
    split_ifs with useless hopeless'
    · exact .refl
    · have mixed : t.peerOnly = false := by
        by_contra only
        have peersOnly : t.peerOnly = true := by simpa using only
        unfold hopeless at hopeless'
        rw [if_pos peersOnly] at hopeless'
        cases hopeless'
      exact Relation.ReflTransGen.head noted (abandon_acts (noted.ready ready) mixed now s)
    · exact .single noted
theorem failed_enters (ready : Ready t) (now : Nat) (p : Nat) :
    (¬ InUse t (.peer p) ∧ t.failed now (.peer p) = t) ∨ InUse t (.peer p) ∧
      ∃ w, Acts (t.retire (.peer p)).1 w ∧ Ending sha256 w (t.failed now (.peer p)) := by
  rcases failed_cases ready now (.peer p) with ⟨same,none⟩ | ⟨origin,_⟩ | ⟨q,same,used,course⟩
  · exact .inl ⟨none rfl,same⟩
  · cases origin
  · exact .inr ⟨used,course.ending sha256⟩
theorem flying_used (ready : Ready t) {s : Source} (found : t.lanes.get? s = some lane)
    (flying : (range,sent) ∈ lane.inFlight) : InUse t s := by
  refine ⟨lane,found,?_⟩
  by_contra gone
  have none := ready.orderly.gone s lane found (by simpa using gone)
  have member : range ∈ lane.work := List.mem_append_left _ (List.mem_map.mpr ⟨(range,sent),flying,rfl⟩)
  rw [none] at member
  cases member
theorem response_used (ready : Ready t)
    (found : t.lanes.get? source = some lane) (flying : (range,sent) ∈ lane.inFlight)
    (bytes : List UInt8) (early : t.peerOnly = true → now < t.floorAt)
    (only : (response sha256 t source range bytes).transfer.peerOnly = true) :
    now < (response sha256 t source range bytes).transfer.floorAt ∧
      InUse (response sha256 t source range bytes).transfer source := by
  obtain ⟨facts,_⟩ := response_facts sha256 ready.orderly found flying bytes
  obtain ⟨used,here,use⟩ := flying_used ready found flying
  rw [facts] at only ⊢
  refine ⟨early only,used.answered range,?_,use⟩
  dsimp only
  rw [OrderedMap.get?_modify_self,here]
  rfl
theorem answered_accepts (ready : Ready t)
    {bytes : List UInt8} (found : t.lanes.get? source = some lane)
    (flying : (range,sent) ∈ lane.inFlight) (early : t.peerOnly = true → now < t.floorAt)
    (length : bytes.length = t.rangeLength range) (good : (response sha256 t source range bytes).bad = false) :
    ∃ sent first, handle sha256 t (.delivered now source range bytes) =
      accept sha256 (response sha256 t source range bytes) now source sent first (t.rangeLength range) := by
  rcases delivered_cases sha256 ready.running early source range bytes with
    ⟨_,none⟩ | ⟨lane',sent',_,_,⟨wrong,_⟩ | ⟨_,bad,_⟩ | ⟨_,_,same⟩⟩
  · exact absurd rfl (none lane found _ flying)
  · exact absurd length wrong
  · rw [good] at bad
    cases bad
  · exact ⟨sent',lane'.firstByteAt,same⟩
theorem spoiled_bans (ready : Ready t)
    {bytes : List UInt8} (found : t.lanes.get? source = some lane)
    (flying : (range,sent) ∈ lane.inFlight) (early : t.peerOnly = true → now < t.floorAt)
    (length : bytes.length = t.rangeLength range) (bad : (response sha256 t source range bytes).bad = true) :
    handle sha256 t (.delivered now source range bytes) =
      (response sha256 t source range bytes).transfer.badPiece now source := by
  rcases delivered_cases sha256 ready.running early source range bytes with
    ⟨_,none⟩ | ⟨lane',sent',_,_,⟨wrong,_⟩ | ⟨_,_,same⟩ | ⟨_,good,_⟩⟩
  · exact absurd rfl (none lane found _ flying)
  · exact absurd length wrong
  · exact same
  · rw [bad] at good
    cases good
/-- Every later call of a running transfer: it takes note of its event, acts follow,
    or those of a tick with the endgame among them, and the call may be the last. -/
theorem handle_cases (ready : Ready t) (busy : t.peerOnly = false → ∀ s, Busy t s)
    (later : e.starts = false) :
    ∃ u w, Entered sha256 t e u ∧ (Acts u w ∨ ∃ now, u = t ∧ Passes t e w now) ∧
      Ending sha256 w (handle sha256 t e) := by
  cases e with
  | start => cases later
  | startPeerOnly => cases later
  | tick now =>
    obtain ⟨w,passes,ending⟩ := tick_passes sha256 ready busy now
    exact ⟨t,w,.tick now,passes.imp id (fun p => ⟨now,rfl,p⟩),ending⟩
  | progress now source received =>
    rcases progress_cases ready now source received with ⟨only,floor,same⟩ | acts
    · obtain ⟨w,acts,ending⟩ := tick_late sha256 ready.running only floor
      exact ⟨t,w,.progress now source received,.inl acts,by rw [← same] at ending; exact ending⟩
    · exact ⟨t,_,.progress now source received,.inl acts,.runs⟩
  | failed now source =>
    cases source with
    | origin =>
      refine ⟨t,t,.unused (by simp [Source.isPeer]),.inl .refl,?_⟩
      unfold handle failed
      dsimp only
      rw [if_neg (by simp [ready.running]),if_pos rfl]
      split_ifs
      · exact .runs
      · exact .fails
    | peer p =>
      rcases failed_enters sha256 ready now p with ⟨none,same⟩ | ⟨used,w,acts,ending⟩
      · exact ⟨t,t,.unused (fun _ => none),.inl .refl,by unfold handle; dsimp only; rw [same]; exact .runs⟩
      · exact ⟨_,w,.fails used,.inl acts,ending⟩
  | delivered now source range bytes =>
    unfold handle
    by_cases floor : t.peerOnly = true ∧ t.floorAt ≤ now
    · obtain ⟨w,acts,ending⟩ := tick_late sha256 ready.running floor.1 floor.2
      refine ⟨t,w,.late floor.1 floor.2,.inl acts,?_⟩
      unfold delivered
      dsimp only
      rw [if_pos floor]
      exact ending
    have early : t.peerOnly = true → now < t.floorAt := fun only => not_le.mp (fun low => floor ⟨only,low⟩)
    rcases delivered_cases sha256 ready.running early source range bytes with
      ⟨same,none⟩ | ⟨lane,sent,found,flying,⟨length,same⟩ | ⟨length,bad,same⟩ | ⟨length,good,same⟩⟩
    · exact ⟨t,t,.unasked none,.inl .refl,by dsimp only; rw [same]; exact .runs⟩
    · dsimp only
      rw [same]
      cases source with
      | origin =>
        refine ⟨t,t,.short found flying length,.inl .refl,?_⟩
        unfold failed
        rw [if_neg (by simp [ready.running]),if_pos rfl]
        split_ifs
        · exact .runs
        · exact .fails
      | peer p =>
        rcases failed_enters sha256 ready now p with ⟨none,_⟩ | ⟨used,w,acts,ending⟩
        · exact absurd (flying_used ready found flying) none
        · exact ⟨_,w,.wrong found flying early length,.inl acts,ending⟩
    · dsimp only
      rw [same]
      have ready' := response_ready sha256 ready found flying bytes
      cases source with
      | origin => exact ⟨_,_,.spoiled found flying early length bad,.inl .refl,.fails⟩
      | peer p =>
        obtain ⟨w,acts,ending⟩ := (badPiece_course ready' now p).ending sha256
        exact ⟨_,w,.spoiled found flying early length bad,.inl acts,ending⟩
    · dsimp only
      rw [same]
      obtain ⟨u,acts,⟨complete,ended⟩ | ⟨_,course⟩⟩ := accept_course sha256
        (response_ready sha256 ready found flying bytes) (response_used sha256 ready found flying bytes early) sent
        lane.firstByteAt (t.rangeLength range)
      · exact ⟨_,u,.answered found flying early length good,.inl acts,by rw [ended]; exact .finishes complete⟩
      · obtain ⟨w,more,ending⟩ := course.ending sha256
        exact ⟨_,w,.answered found flying early length good,.inl (acts.trans more),ending⟩
/-- What holds once the event is taken note of, and what acts and the endgame of a
    tick preserve, holds of the transfer that the call leaves or ends. -/
theorem handle_induction {P : Transfer → Prop} (ready : Ready t)
    (busy : t.peerOnly = false → ∀ s, Busy t s) (later : e.starts = false)
    (entered : ∀ u, Entered sha256 t e u → P u) (act : ∀ u v, Ready u → P u → Act u v → P v)
    (endgame : ∀ now, e = .tick now → now < t.floorAt → Ready (t.atEndgame now) → P (t.atEndgame now) →
      P ((t.atEndgame now).endgame now)) :
    ∃ w, P w ∧ Ready w ∧ Ending sha256 w (handle sha256 t e) := by
  have run : ∀ {a b}, Acts a b → Ready a → P a → P b := by
    intro a b acts before holds
    induction acts with
    | refl => exact holds
    | tail first last ih =>
      have part : Acts a _ := first
      exact act _ _ (part.ready before) ih last
  obtain ⟨u,w,enters,acts | ⟨now,rfl,passes⟩,ending⟩ := handle_cases sha256 ready busy later
  · exact ⟨w,run acts (enters.ready sha256 ready) (entered u enters),acts.ready (enters.ready sha256 ready),ending⟩
  · have before := passes.before.ready ready
    have middle := (endgame_ready before now).1
    refine ⟨w,run passes.later middle (endgame now passes.ticks passes.early before ?_),
      passes.later.ready middle,ending⟩
    exact run passes.before ready (entered u enters)

/-! ### Runs -/

/-- A running transfer between two calls: it is ready, and a mixed one covers every
    piece. -/
structure Rested (n : Nat) (t : Transfer) : Prop where
  ready : Ready t
  count : t.verified.length = n
  covered : t.peerOnly = false → Covered n t
/-- A transfer that is over, or rests between two calls. -/
def Between (n : Nat) (t : Transfer) : Prop := t.finished = true ∨ Rested n t

theorem Rested.busy (rested : Rested n t) (mixed : t.peerOnly = false) (s : Source) : Busy t s :=
  (rested.covered mixed).busy s
theorem finish_over (t : Transfer) : (t.finish sha256).finished = true := by
  unfold finish
  split_ifs <;> rfl
theorem Ending.cases (ending : Ending sha256 t t') : t'.finished = true ∨ t' = t := by
  cases ending with
  | runs => exact .inr rfl
  | fails => exact .inl rfl
  | finishes => exact .inl (finish_over sha256 t)
theorem closeOut_lanes (t : Transfer) : ∀ s lane, t.closeOut.lanes.get? s = some lane → lane.work = [] := by
  intro s lane found
  simp only [closeOut,OrderedMap.get?_mapValues] at found
  obtain ⟨old,_,rfl⟩ := Option.map_eq_some_iff.mp found
  rfl
theorem finish_lanes (t : Transfer) : ∀ s lane, (t.finish sha256).lanes.get? s = some lane → lane.work = [] := by
  unfold finish
  split_ifs
  · exact closeOut_lanes t
  · exact closeOut_lanes t
theorem Ending.lanes (ending : Ending sha256 t t') :
    t' = t ∨ ∀ s lane, t'.lanes.get? s = some lane → lane.work = [] := by
  cases ending with
  | runs => exact .inl rfl
  | fails => exact .inr (closeOut_lanes t)
  | finishes => exact .inr (finish_lanes sha256 t)
structure Ground where
  config : TransferConfig
  exclusive : Bool
  deadline : Nat
  object : Object
def ground (t : Transfer) : Ground := ⟨t.config,t.exclusiveOrigin,t.deadline,t.object⟩
theorem Works.ground (works : Works t t') : t'.ground = t.ground := by
  have config : t'.config = t.config := congrArg Fixed.config works.fixed
  have deadline : t'.deadline = t.deadline := congrArg Fixed.deadline works.fixed
  simp only [Transfer.ground,works.object,works.exclusive,config,deadline]
theorem Ground.mode (same : t'.ground = t.ground) : t'.peerOnly = t.peerOnly :=
  congrArg (fun g => g.object.peerOnly) same
theorem Ground.count (same : t'.ground = t.ground) : t'.verified.length = t.verified.length :=
  congrArg (fun g => g.object.count) same
theorem Ground.shared (same : t'.ground = t.ground) : t'.exclusiveOrigin = t.exclusiveOrigin :=
  congrArg Ground.exclusive same
theorem Entered.ground {t u : Transfer} (entered : Entered sha256 t e u) (orderly : Orderly t) :
    u.ground = t.ground := by
  have checked : ∀ {source lane range sent} bytes, t.lanes.get? source = some lane → (range,sent) ∈ lane.inFlight →
      (response sha256 t source range bytes).transfer.ground = t.ground := by
    intro source lane range sent bytes found flying
    obtain ⟨frame,length,_⟩ := response_facts sha256 orderly found flying bytes
    rw [frame]
    simp only [Transfer.ground,Transfer.object,length]
  cases entered with
  | tick | progress | late | unasked | short | unused => rfl
  | fails | wrong => exact (retire_works t _).ground
  | @spoiled _ source _ _ range bytes found flying => exact checked bytes found flying
  | @answered _ source _ _ range bytes found flying =>
    obtain ⟨_,_,frame⟩ := credited_frame (response sha256 t source range bytes) source
    rw [frame]
    exact checked bytes found flying
theorem Ending.ground (ending : Ending sha256 t t') : t'.ground = t.ground := by
  cases ending with
  | runs => rfl
  | fails => rfl
  | finishes =>
    unfold finish
    split_ifs <;> rfl
theorem handle_ground (ready : Ready t) (busy : t.peerOnly = false → ∀ s, Busy t s)
    (later : e.starts = false) : (handle sha256 t e).ground = t.ground := by
  obtain ⟨w,same,_,ending⟩ := handle_induction sha256 ready busy later (P := fun u => u.ground = t.ground)
    (fun u entered => entered.ground sha256 ready.orderly) (fun u v _ same act => act.works.ground.trans same)
    (fun now _ _ ready same => (endgame_ready ready now).2.ground.trans same)
  exact (ending.ground sha256).trans same
theorem Acts.count (acts : Acts t t') : t'.verified.length = t.verified.length :=
  congrArg List.length acts.works.verified
theorem handle_between (rested : Rested n t) (later : e.starts = false) :
    Between n (handle sha256 t e) := by
  obtain ⟨w,_,ready,ending⟩ := handle_induction sha256 rested.ready rested.busy later (P := fun _ => True)
    (fun _ _ => trivial) (fun _ _ _ _ _ => trivial) (fun _ _ _ _ _ => trivial)
  have ground := handle_ground sha256 rested.ready rested.busy later
  rcases ending.cases with concluded | same
  · exact .inl concluded
  refine .inr ⟨by rw [same]; exact ready,(Ground.count ground).trans rested.count,fun mixed => ?_⟩
  rw [Ground.mode ground] at mixed
  have settled := handle_settled sha256 (rested.covered mixed).settled e later
  rw [same] at settled ⊢
  exact settled.2 ready.running
theorem handle_finished (concluded : t.finished = true) (later : e.starts = false) :
    handle sha256 t e = t := by
  have ticked : ∀ now, t.tick now = t := fun now => by unfold tick; rw [if_pos concluded]
  cases e with
  | start => cases later
  | startPeerOnly => cases later
  | delivered now source range bytes =>
    unfold handle delivered
    dsimp only
    split_ifs
    · exact ticked now
    · rfl
  | failed now source =>
    unfold handle failed
    dsimp only
    rw [if_pos concluded]
  | progress now source received =>
    unfold handle progress
    dsimp only
    by_cases floor : t.peerOnly = true ∧ t.floorAt ≤ now
    · rw [if_pos floor,ticked]
    · rw [if_neg floor,if_pos (Or.inl concluded)]
  | tick now => exact ticked now
theorem drained_ready (ready : Ready t) : Ready t.drainCommands.2 :=
  ⟨ready.running,⟨ready.orderly.within,ready.orderly.gone,ready.orderly.keyed⟩,ready.homed,ready.homeless,
    ready.pending,ready.distinct,ready.unprobed,ready.owned⟩
theorem drained_between (between : Between n t) : Between n t.drainCommands.2 := by
  refine between.imp id (fun rested => ⟨drained_ready rested.ready,rested.count,fun mixed => ?_⟩)
  exact (drain_settled (rested.covered mixed).settled).2 rested.ready.running
abbrev after (t : Transfer) (events : List Event) : Transfer := (Shell.run sha256 ⟨t,[]⟩ events).transfer
theorem run_append (s : Shell) (first second : List Event) :
    Shell.run sha256 s (first ++ second) = Shell.run sha256 (Shell.run sha256 s first) second := by
  simp [Shell.run]
theorem after_concat (t : Transfer) (events : List Event) (e : Event) :
    after sha256 t (events ++ [e]) = (handle sha256 (after sha256 t events) e).drainCommands.2 := by
  unfold after
  rw [run_append]
  rfl
theorem run_silent (t : Transfer) (first : Event) (events : List Event) :
    (after sha256 t (first :: events)).commands = [] := by
  induction events using List.reverseRecOn with
  | nil => rfl
  | append_singleton events e _ => rw [← List.cons_append,after_concat]; rfl
/-- What a start establishes and every later call preserves, under a condition on
    the call and the state before it, holds after the run. -/
theorem run_induction {P : Transfer → Prop} {C : Transfer → Event → Prop} {first : Event}
    (begun : P (handle sha256 t first).drainCommands.2)
    (step : ∀ u e, P u → e.starts = false → C u e → P (handle sha256 u e).drainCommands.2) (events : List Event) :
    (∀ pre e post, events = pre ++ e :: post → e.starts = false ∧ C (after sha256 t (first :: pre)) e) →
      P (after sha256 t (first :: events)) := by
  induction events using List.reverseRecOn with
  | nil => intro _; exact begun
  | append_singleton events e ih =>
    intro fair
    have last := fair events e [] rfl
    have before := ih (fun pre e' post split => fair pre e' (post ++ [e]) (by simp [split]))
    have same := after_concat sha256 t (first :: events) e
    rw [List.cons_append] at same
    rw [same]
    exact step _ e before last.1 last.2
theorem begins_between (newborn : Newborn n t) {first : Event} (begins : Begins t first) :
    Between n (handle sha256 t first) := by
  obtain ⟨u,opened,same⟩ := begins_opened sha256 newborn begins
  obtain ⟨w,acts,ending⟩ := (opened.course first.roster.1).ending sha256
  rw [← same] at ending
  rcases ending.cases with concluded | ran
  · exact .inl concluded
  have ready := acts.ready opened.ready
  refine .inr ⟨by rw [ran]; exact ready,by rw [ran]; exact acts.count.trans opened.count,fun mixed => ?_⟩
  rw [ran] at mixed
  have mode : t.peerOnly = false := opened.peerOnly.symm.trans (acts.peerOnly.symm.trans mixed)
  cases begins with
  | @start now peers origin first rate probes fromOrigin =>
    exact start_covered ⟨newborn.length,mode,newborn.running,newborn.lanes,by rw [newborn.length]; exact newborn.pieces,
      newborn.fresh⟩ now peers (fromOrigin mode) first rate probes
  | peerOnly only => rw [mode] at only; cases only
theorem run_between (newborn : Newborn n t) {first : Event} (begins : Begins t first)
    {events : List Event} (later : ∀ e ∈ events, e.starts = false) : Between n (after sha256 t (first :: events)) := by
  refine run_induction sha256 (P := Between n) (C := fun _ _ => True)
    (drained_between (begins_between sha256 newborn begins)) ?_ events (fun pre e post split => ?_)
  · rintro u e (concluded | rested) starts _
    · rw [handle_finished sha256 concluded starts]
      exact .inl concluded
    · exact drained_between (handle_between sha256 rested starts)
  · exact ⟨later e (by simp [split]),trivial⟩
theorem Opened.ground {t u : Transfer} (opened : Opened n t u) : u.ground = t.ground := by
  simp only [Transfer.ground,opened.object,opened.exclusive,opened.config,opened.deadline]
theorem run_ground (newborn : Newborn n t) {first : Event} (begins : Begins t first)
    {events : List Event} (later : ∀ e ∈ events, e.starts = false) :
    (after sha256 t (first :: events)).ground = t.ground := by
  have held : Between n (after sha256 t (first :: events)) ∧ (after sha256 t (first :: events)).ground = t.ground := by
    refine run_induction sha256 (P := fun u => Between n u ∧ u.ground = t.ground) (C := fun _ _ => True)
      ⟨drained_between (begins_between sha256 newborn begins),?_⟩ ?_ events
      (fun pre e post split => ⟨later e (by simp [split]),trivial⟩)
    · obtain ⟨u,opened,same⟩ := begins_opened sha256 newborn begins
      obtain ⟨w,acts,ending⟩ := (opened.course first.roster.1).ending sha256
      rw [← same] at ending
      exact (ending.ground sha256).trans (acts.works.ground.trans opened.ground)
    · rintro u e ⟨concluded | rested,same⟩ starts _
      · rw [handle_finished sha256 concluded starts]
        exact ⟨.inl concluded,same⟩
      · exact ⟨drained_between (handle_between sha256 rested starts),
          (handle_ground sha256 rested.ready rested.busy starts).trans same⟩
  exact held.2
theorem run_over (newborn : Newborn n t) {first : Event} (begins : Begins t first)
    {events : List Event} (later : ∀ e ∈ events, e.starts = false)
    (concluded : (after sha256 t (first :: events)).finished = true) :
    ∀ s lane, (after sha256 t (first :: events)).lanes.get? s = some lane → lane.work = [] := by
  have ended : ∀ {u t'}, Ready u → Ending sha256 u t' → t'.finished = true →
      ∀ s lane, t'.drainCommands.2.lanes.get? s = some lane → lane.work = [] := by
    intro u t' ready ending concluded'
    rcases ending.lanes with same | empty
    · rw [same,ready.running] at concluded'
      cases concluded'
    · exact empty
  have held : Between n (after sha256 t (first :: events)) ∧ ((after sha256 t (first :: events)).finished = true →
      ∀ s lane, (after sha256 t (first :: events)).lanes.get? s = some lane → lane.work = []) := by
    refine run_induction sha256 (P := fun u => Between n u ∧ (u.finished = true →
      ∀ s lane, u.lanes.get? s = some lane → lane.work = [])) (C := fun _ _ => True)
      ⟨drained_between (begins_between sha256 newborn begins),?_⟩ ?_ events
      (fun pre e post split => ⟨later e (by simp [split]),trivial⟩)
    · obtain ⟨u,opened,same⟩ := begins_opened sha256 newborn begins
      obtain ⟨w,acts,ending⟩ := (opened.course first.roster.1).ending sha256
      rw [← same] at ending
      exact fun concluded' => ended (acts.ready opened.ready) ending concluded'
    · rintro u e ⟨concluded' | rested,empty⟩ starts _
      · rw [handle_finished sha256 concluded' starts]
        exact ⟨.inl concluded',fun _ => empty concluded'⟩
      · obtain ⟨w,_,ready,ending⟩ := handle_induction sha256 rested.ready rested.busy starts (P := fun _ => True)
          (fun _ _ => trivial) (fun _ _ _ _ _ => trivial) (fun _ _ _ _ _ => trivial)
        exact ⟨drained_between (handle_between sha256 rested starts),fun concluded' => ended ready ending concluded'⟩
  exact held.2 concluded

/-! ### Replaying a run of answers of the right length -/

/-- What is made of an answer whose length is right. -/
def answer (t : Transfer) (now : Nat) (source : Source) (range : PieceRange) (bytes : List UInt8) : Transfer :=
  if t.peerOnly ∧ t.floorAt ≤ now then t.tick now
  else if t.finished then t
  else
    match t.lanes.get? source with
    | none => t
    | some lane =>
      match lane.inFlight.find? (·.1 = range) with
      | none => t
      | some (_,sent) =>
        let c := response sha256 t source range bytes
        if c.bad then c.transfer.badPiece now source
        else accept sha256 c now source sent lane.firstByteAt (t.rangeLength range)
/-- A call whose answer has the right length; its bytes are looked at only by the digest. -/
def replay (t : Transfer) : Event → Transfer
  | .delivered now source range bytes => answer sha256 t now source range bytes
  | e => handle sha256 t e
theorem handle_replay (whole : ∀ now source range bytes, e = .delivered now source range bytes →
    bytes.length = t.rangeLength range) : handle sha256 t e = replay sha256 t e := by
  cases e with
  | delivered now source range bytes =>
    have length : bytes.length = (t.pieceRangeBytes range).2 - (t.pieceRangeBytes range).1 :=
      whole now source range bytes rfl
    unfold handle replay answer delivered
    dsimp only
    simp only [length,ne_eq,not_true,if_false]
    rfl
  | start | startPeerOnly | failed | progress | tick => rfl
theorem Ground.rangeLength (same : t'.ground = t.ground) (range : PieceRange) :
    t'.rangeLength range = t.rangeLength range := by
  have size : t'.size = t.size := congrArg (fun g => g.object.size) same
  have pieceSize : t'.pieceSize = t.pieceSize := congrArg (fun g => g.object.pieceSize) same
  simp only [Transfer.rangeLength,pieceRangeBytes,size,pieceSize]
theorem after_replay (newborn : Newborn n t) {first : Event} (begins : Begins t first)
    {events : List Event} (later : ∀ e ∈ events, e.starts = false)
    (whole : ∀ now source range bytes, .delivered now source range bytes ∈ events →
      bytes.length = t.rangeLength range) :
    after sha256 t (first :: events) =
      events.foldl (fun u e => (replay sha256 u e).drainCommands.2) (handle sha256 t first).drainCommands.2 := by
  induction events using List.reverseRecOn with
  | nil => rfl
  | append_singleton events e ih =>
    have before : ∀ e' ∈ events, e'.starts = false := fun e' member => later e' (by simp [member])
    have same := after_concat sha256 t (first :: events) e
    rw [List.cons_append] at same
    rw [same,List.foldl_append,← ih before (fun now s range bytes member => whole now s range bytes (by simp [member])),
      handle_replay]
    · rfl
    · intro now s range bytes is
      rw [Ground.rangeLength (run_ground sha256 newborn begins before)]
      exact whole now s range bytes (by simp [is])
end
end Transfer
end RelaySwarm.Transfers
