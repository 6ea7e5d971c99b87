import RelaySwarm.TransferBracket

/-!
Lanes with queued work have a request in flight. Every hand-out and every act keep
this of a lane; an answer breaks it for its source alone, which is then issued its
queue, or has none left once it is banned. So it holds between the calls of every run
(`run_steady`), in every mode.
-/
namespace RelaySwarm.Transfers
open Pieces Planning
namespace Transfer

variable {t t' : Transfer} {s : Source} {n : Nat}
theorem Grows.steady {extra : List Nat} (grows : Grows t t' s extra) {s' : Source}
    (busy : Busy t s') : Busy t' s' := grows.busy s' (.inr busy)
theorem Quiet.busy (quiet : Quiet t t') (busy : Busy t s) : Busy t' s := by
  intro lane' found queued
  obtain ⟨lane,before,same⟩ := quiet.before found
  obtain ⟨flight,queue,_⟩ := Lane.post_eq same
  rw [← flight]
  exact busy lane before (by rwa [queue])
theorem claimOrigin_busy (t : Transfer) (claimed : List Nat) (busy : Busy t s) : Busy (t.claimOrigin claimed) s := by
  intro lane' found queued
  unfold claimOrigin at found
  dsimp only at found
  rw [OrderedMap.get?_modify] at found
  split_ifs at found
  · obtain ⟨lane,before,rfl⟩ := Option.map_eq_some_iff.mp found
    refine busy lane before (fun none => queued ?_)
    simp [none,indices,runs]
  · exact busy lane' found queued
theorem retire_busy (t : Transfer) (s : Source) {s' : Source} (busy : s' = s ∨ Busy t s') : Busy (t.retire s).1 s' := by
  intro lane' found queued
  rcases retire_cases t s with ⟨none,same⟩ | ⟨mine,_,same,_⟩
  · rw [same] at found
    rcases busy with rfl | busy
    · rw [none] at found
      cases found
    · exact busy lane' found queued
  · rw [same] at found
    dsimp only at found
    rw [OrderedMap.get?_modify] at found
    split_ifs at found with own
    · obtain ⟨_,_,rfl⟩ := Option.map_eq_some_iff.mp found
      exact absurd rfl queued
    · exact busy.resolve_left own lane' found queued
theorem Give.busy (given : Give t t') (ready : Ready t) (busy : Busy t s) : Busy t' s := by
  cases given with
  | notes quiet => exact quiet.busy busy
  | gives found _ now fit finishAt _ => exact (fit.grows ready.orderly found now finishAt).steady busy
  | tries found _ now fit finishAt _ => exact ((fit.grows ready.orderly found now finishAt).marked _).steady busy
  | issues found _ now => exact (issue_grows found now (ready.orderly.within _ _ found)).steady busy
  | yields claimed => exact claimOrigin_busy t claimed busy
theorem Act.busy (act : Act t t') (ready : Ready t) (busy : Busy t s) : Busy t' s := by
  cases act with
  | give given => exact given.busy ready busy
  | retires => exact retire_busy _ _ (.inr busy)
theorem Gives.busy (gives : Gives t t') (ready : Ready t) (busy : Busy t s) : Busy t' s := by
  induction gives with
  | refl => exact busy
  | tail first given ih =>
    have part : Gives t _ := first
    exact given.busy (part.ready ready) ih
theorem Acts.busy (acts : Acts t t') (ready : Ready t) (busy : Busy t s) : Busy t' s := by
  induction acts with
  | refl => exact busy
  | tail first act ih =>
    have part : Acts t _ := first
    exact act.busy (part.ready ready) ih
theorem endgame_busy (ready : Ready t) (now : Nat) (busy : Busy t s) : Busy (t.endgame now) s := by
  cases chosen : t.endgameTarget now with
  | none => rw [endgame_idle chosen]; exact busy
  | some s' =>
    refine (endgame_induction ready (P := fun _ u => Busy u s) chosen (fun u range rest ready' used within held => ?_)
      ((markDuplicated_quiet t).busy busy)).1
    exact (giveTo_grows ready' used now (fun r member => within r (by simp_all))).steady held
/-- Every lane with queued work has a request in flight. -/
def Steady (t : Transfer) : Prop := ∀ s, Busy t s
theorem Unworked.steady (idle : Unworked t) : Steady t := by
  intro s lane found queued
  exact absurd (idle s lane found).2.1 queued

section
variable (sha256 : List UInt8 → Digest)

theorem response_busy (orderly : Orderly t) {source : Source} {lane : Lane} {range : PieceRange} {sent : Nat}
    (found : t.lanes.get? source = some lane) (flying : (range,sent) ∈ lane.inFlight) (bytes : List UInt8)
    (differs : s ≠ source) (busy : Busy t s) : Busy (response sha256 t source range bytes).transfer s := by
  intro other here queued
  rw [(response_facts sha256 orderly found flying bytes).1] at here
  dsimp only at here
  rw [OrderedMap.get?_modify_of_ne _ _ differs] at here
  exact busy other here queued
theorem Ending.steady (ending : Ending sha256 t t') (steady : Steady t) : Steady t' := by
  rcases ending.lanes with rfl | empty
  · exact steady
  · exact fun s lane found queued => absurd (List.append_eq_nil_iff.mp (empty s lane found)).2 queued
theorem empty_steady (empty : ∀ s lane, t.lanes.get? s = some lane → lane.work = []) : Steady t :=
  fun s lane found queued => absurd (List.append_eq_nil_iff.mp (empty s lane found)).2 queued
theorem banned_steady (orderly : Orderly t) (steady : Steady t) {p : Nat} {lane : Lane} {range : PieceRange}
    {sent : Nat} (found : t.lanes.get? (.peer p) = some lane) (flying : (range,sent) ∈ lane.inFlight)
    (bytes : List UInt8) :
    Steady (((response sha256 t (.peer p) range bytes).transfer.push (.ban p)).retire (.peer p)).1 := by
  intro s
  refine retire_busy _ _ ?_
  by_cases own : s = .peer p
  · exact .inl own
  · exact .inr (response_busy sha256 orderly found flying bytes own (steady s))
/-- A later call keeps the lanes steady: the source of an answer is issued its queue,
    and one that sent a bad piece has none left. -/
theorem handle_steady (ready : Ready t) (steady : Steady t) {e : Event} (later : e.starts = false) :
    Steady (handle sha256 t e) := by
  have busy : t.peerOnly = false → ∀ s, Busy t s := fun _ => steady
  obtain ⟨u,w,enters,run,ending⟩ := handle_cases sha256 ready busy later
  have ready' := enters.ready sha256 ready
  have reaches : Steady u → Steady (handle sha256 t e) := by
    intro held
    refine ending.steady sha256 (fun s => ?_)
    rcases run with acts | ⟨now,rfl,passes⟩
    · exact acts.busy ready' (held s)
    · have ready'' := passes.before.ready ready'
      exact passes.later.busy (endgame_ready ready'' now).1
        (endgame_busy ready'' now (passes.before.busy ready' (held s)))
  cases enters with
  | tick | progress | late | unasked | short | unused => exact reaches steady
  | fails | wrong => exact reaches (fun s => retire_busy t _ (.inr (steady s)))
  | @spoiled now source lane sent range bytes found flying early length bad =>
    clear reaches run
    rw [spoiled_bans sha256 ready found flying early length bad]
    cases source with
    | origin => exact empty_steady (closeOut_lanes _)
    | peer p =>
      have act : Act (response sha256 t (.peer p) range bytes).transfer
          (((response sha256 t (.peer p) range bytes).transfer.push (.ban p)).retire (.peer p)).1 :=
        .retires (.inr (.inr rfl)) (fun own => by cases own)
      rcases badPiece_gives ready' now p with gives | ⟨v,_,failing⟩
      · exact fun s => gives.busy (act.ready ready') (banned_steady sha256 ready.orderly steady found flying bytes s)
      · rw [failing]
        exact empty_steady (closeOut_lanes _)
  | @answered now source lane sent range bytes found flying early length good =>
    clear reaches run
    obtain ⟨sent',first,same⟩ := answered_accepts sha256 ready found flying early length good
    rw [same]
    have checked := response_ready sha256 ready found flying bytes
    obtain ⟨acts,⟨_,ended⟩ | ⟨_,ended⟩⟩ :=
      accept_split sha256 checked (response_used sha256 ready found flying bytes early) sent' first
        (t.rangeLength range)
    · rw [ended]
      exact empty_steady (finish_lanes sha256 _)
    · rw [ended]
      generalize accepted (response sha256 t source range bytes) now source sent' first (t.rangeLength range) = v
        at acts
      have ready'' := acts.ready ready'
      have issued : Steady (v.issue now source) := by
        intro s
        by_cases own : s = source
        · subst own
          exact (issue_keeps ready''.orderly now s).2
        · refine (issue_gives ready'' now source).busy ready'' (acts.busy ready' ?_)
          obtain ⟨_,_,frame⟩ := credited_frame (response sha256 t source range bytes) source
          rw [frame]
          exact response_busy sha256 ready.orderly found flying bytes own (steady s)
      have ready3 := (issue_gives ready'' now source).ready ready''
      rcases refill_course ready3 now with gives | ⟨z,_,failing⟩
      · exact fun s => gives.busy ready3 (issued s)
      · rw [failing]
        exact empty_steady (closeOut_lanes _)
theorem begins_steady (newborn : Newborn n t) {first : Event} (begins : Begins t first) :
    Steady (handle sha256 t first) := by
  obtain ⟨u,opened,same⟩ := begins_opened sha256 newborn begins
  obtain ⟨w,acts,ending⟩ := (opened.course first.roster.1).ending sha256
  rw [← same] at ending
  exact ending.steady sha256 (fun s => acts.busy opened.ready (opened.idle.steady s))
theorem run_steady (newborn : Newborn n t) {first : Event} (begins : Begins t first)
    {events : List Event} (later : ∀ e ∈ events, e.starts = false) : Steady (after sha256 t (first :: events)) := by
  have held : Between n (after sha256 t (first :: events)) ∧ Steady (after sha256 t (first :: events)) := by
    refine run_induction sha256 (P := fun u => Between n u ∧ Steady u) (C := fun _ _ => True)
      ⟨drained_between (begins_between sha256 newborn begins),begins_steady sha256 newborn begins⟩ ?_ events
      (fun pre e post split => ⟨later e (by simp [split]),trivial⟩)
    rintro u e ⟨concluded | rested,steady⟩ starts _
    · rw [handle_finished sha256 concluded starts]
      exact ⟨.inl concluded,steady⟩
    · exact ⟨drained_between (handle_between sha256 rested starts),handle_steady sha256 rested.ready steady starts⟩
  exact held.2
end
end Transfer
end RelaySwarm.Transfers
