import RelaySwarm.TransferCalls
import Mathlib.Data.List.Flatten

/-!
Each call of the shell, taken apart. A failure retires a lane and goes on with
acts; a tick judges the watched requests, runs the endgame and rebalances
(`tick_cases`); a response is taken out of flight and checked, and acts follow
(`delivered_cases`, `accept_course`). The endgame gives its pieces to one target
(`endgameTarget`, `endgame_gives`). A start opens lanes and assigns every piece
(`begins_opened`).
-/
namespace RelaySwarm.Transfers
open Pieces Planning

variable {t : Transfer} {s source winner : Source} {range : PieceRange} {now p n : Nat} {lane : Lane} {c : Checked}
  {config : TransferConfig} {digest : String}
/-- The time of a start, and the peers and probes it names. -/
def Event.roster : Event → Nat × List Estimate × List Nat
  | .start now peers _ _ _ probes => (now,peers,probes)
  | .startPeerOnly now peers _ _ probes => (now,peers,probes)
  | _ => (0,[],[])

namespace Transfer

theorem Acts.peerOnly {t t' : Transfer} (acts : Acts t t') : t'.peerOnly = t.peerOnly := acts.works.peerOnly

/-! ### Failures and abandoned requests -/

theorem abandon_acts (ready : Ready t) (mixed : t.peerOnly = false) (now : Nat) (s : Source) :
    Acts t (t.abandon now s) := by
  cases s with
  | origin => exact .refl
  | peer p =>
    have stops : (Command.abandon p).stops p := .inr (.inl rfl)
    have acts := stop_acts ready mixed now stops (fun own => by cases own)
    exact acts.trans (rebalanceOrigin_acts (acts.ready ready) now).acts
theorem reassign_course (ready : Ready t) (now : Nat) (p : Nat) :
    Course (t.retire (.peer p)).1 (t.reassign now (.peer p)) := by
  cases mode : t.peerOnly with
  | false => exact .inl (regive_acts ready mode now p).acts
  | true =>
    rcases assign_course (retire_ready ready p) ((retire_works t _).peerOnly.trans mode) now
      ((t.retire (.peer p)).2.filter (fun index => ¬ (t.retire (.peer p)).1.covered index)) with
      gives | ⟨⟨u,gives,failing⟩,_⟩
    · exact .inl gives.acts
    · exact .inr ⟨u,gives.acts,failing⟩
theorem rebalanceOrigin_course {t t' : Transfer} (ready : Ready t) (course : Course t t') (now : Nat) :
    Course t (t'.rebalanceOrigin now) := by
  rcases course with acts | ⟨u,acts,rfl⟩
  · exact .inl (acts.trans (rebalanceOrigin_acts (acts.ready ready) now).acts)
  · rw [rebalanceOrigin_over (.inl rfl) now]
    exact .inr ⟨u,acts,rfl⟩
/-- What a failure does: nothing, or origin's failure ends a mixed transfer, or the
    lane of a peer in use is retired and acts follow. -/
theorem failed_cases (ready : Ready t) (now : Nat) (s : Source) :
    (t.failed now s = t ∧ (s.isPeer = true → ¬ InUse t s)) ∨
      (s = .origin ∧ t.peerOnly = false ∧ t.failed now s = t.fail) ∨
      ∃ p, s = .peer p ∧ InUse t s ∧ Course (t.retire s).1 (t.failed now s) := by
  unfold failed
  rw [if_neg (by simp [ready.running])]
  cases s with
  | origin =>
    rw [if_pos rfl]
    cases mode : t.peerOnly with
    | true => exact .inl ⟨by simp,by simp [Source.isPeer]⟩
    | false => exact .inr (.inl ⟨rfl,rfl,by simp⟩)
  | peer p =>
    rw [if_neg (by simp)]
    cases found : t.lanes.get? (.peer p) with
    | none =>
      refine .inl ⟨rfl,fun _ used => ?_⟩
      obtain ⟨lane,here,_⟩ := used
      rw [found] at here
      cases here
    | some lane =>
      dsimp only
      by_cases gone : lane.retired = true
      · rw [if_pos gone]
        refine .inl ⟨rfl,fun _ used => ?_⟩
        obtain ⟨other,here,use⟩ := used
        rw [found] at here
        cases here
        rw [gone] at use
        cases use
      · rw [if_neg gone]
        refine .inr (.inr ⟨p,rfl,⟨lane,found,by simpa using gone⟩,?_⟩)
        have ready' := retire_ready ready p
        exact rebalanceOrigin_course ready' (reassign_course ready now p) now
theorem badPiece_gives (ready : Ready t) (now : Nat) (p : Nat) :
    Gives ((t.push (.ban p)).retire (.peer p)).1 (t.badPiece now (.peer p)) ∨
      ∃ u, Gives ((t.push (.ban p)).retire (.peer p)).1 u ∧ t.badPiece now (.peer p) = u.fail := by
  have pushed := push_ready ready (.ban p)
  have act : Act t ((t.push (.ban p)).retire (.peer p)).1 := .retires (.inr (.inr rfl)) (fun own => by cases own)
  obtain ⟨_,inside,_⟩ := retire_loses pushed.orderly (s := .peer p) rfl
  obtain ⟨once,bare⟩ := retire_bare (t.push (.ban p)) (.peer p)
  have works := act.works
  unfold badPiece
  dsimp only
  generalize (t.push (.ban p)).retire (.peer p) = retired at act inside once bare works ⊢
  set needed := (retired.2 ++ (List.range t.verified.length).filter (fun index =>
    ¬ retired.1.covered index ∧ index ∉ retired.2)).insertionSort (· ≤ ·) with named
  have member : ∀ i, i ∈ needed ↔ i ∈ retired.2 ∨ i < t.verified.length ∧ ¬ retired.1.covered i ∧ i ∉ retired.2 := by
    intro i
    rw [named,List.mem_insertionSort,List.mem_append,List.mem_filter,List.mem_range,decide_eq_true_eq]
  have distinct : needed.Nodup := by
    rw [named,(List.perm_insertionSort _ _).nodup_iff,List.nodup_append']
    refine ⟨once,List.nodup_range.filter _,fun i mine theirs => ?_⟩
    have := (List.mem_filter.mp theirs).2
    simp only [decide_eq_true_eq] at this
    exact this.2 mine
  cases mode : t.peerOnly with
  | false =>
    refine .inl (assign_acts (act.ready ready) (works.peerOnly.trans mode) now distinct ?_ ?_)
    · intro i listed
      rw [works.verified]
      rcases (member i).mp listed with given | ⟨low,_⟩
      · exact inside i given
      · exact low
    · intro i listed
      rcases (member i).mp listed with given | ⟨_,uncovered,_⟩
      · exact bare i given
      · exact uncovered
  | true => exact (assign_course (act.ready ready) (works.peerOnly.trans mode) now needed).imp id (·.1)
theorem badPiece_course (ready : Ready t) (now : Nat) (p : Nat) :
    Course t (t.badPiece now (.peer p)) := by
  have act : Act t ((t.push (.ban p)).retire (.peer p)).1 := .retires (.inr (.inr rfl)) (fun own => by cases own)
  refine Course.after (.single act) ?_
  rcases badPiece_gives ready now p with gives | ⟨u,gives,failing⟩
  · exact .inl gives.acts
  · exact .inr ⟨u,gives.acts,failing⟩

/-! ### The endgame -/

/-- The source the endgame gives the last pieces to, when it acts. -/
def endgameTarget (t : Transfer) (now : Nat) : Option Source :=
  if t.endgamePieces = [] ∨ ∀ lane ∈ t.lanes.values, lane.inFlight = [] ∨
      (∀ index ∈ t.endgamePieces, ¬ lane.holds index) ∨ (now : ℚ) < lane.finishAt then none
  else if t.peerOnly then t.peerOnlyEndgameSource
  else some ((fastest (fun lane => (positive lane.estimate.rate).getD 0) (t.livePeers.filter (fun entry =>
    entry.2.idle))).map (·.1) |>.getD .origin)
/-- One more range for a lane, and an issue. -/
def giveTo (now : Nat) (s : Source) (t : Transfer) (range : PieceRange) : Transfer :=
  (t.extendQueue s [range] id).issue now s
def markDuplicated (t : Transfer) : Transfer := { t with duplicated := t.duplicated ∪ t.endgamePieces.toFinset }

theorem endgame_target (t : Transfer) (now : Nat) : t.endgame now =
    match t.endgameTarget now with
    | none => t
    | some s => (runs t.endgamePieces).foldl (fun t range => match s with
        | .origin => t.queueOrigin now range
        | .peer _ => giveTo now s t range) t.markDuplicated := by
  unfold endgame endgameTarget
  dsimp only
  by_cases quiet : t.endgamePieces = [] ∨ ∀ lane ∈ t.lanes.values, lane.inFlight = [] ∨
      (∀ index ∈ t.endgamePieces, ¬ lane.holds index) ∨ (now : ℚ) < lane.finishAt
  · rw [if_pos quiet,if_pos quiet]
  · rw [if_neg quiet,if_neg quiet]
    rfl
theorem giveTo_grows (ready : Ready t) (used : InUse t s) (now : Nat)
    (within : Within t.verified.length [range]) : Grows t (giveTo now s t range) s range.indices := by
  obtain ⟨lane,found,_⟩ := used
  have grows := extend_grows found now id (ready.orderly.within _ _ found) within
  rw [indices_cons,indices_nil,List.append_nil] at grows
  exact grows
theorem giveTo_works (now : Nat) (s : Source) (t : Transfer) (range : PieceRange) : Works t (giveTo now s t range) :=
  (extendQueue_works ..).trans (issue_works ..)
theorem giveTo_ready (ready : Ready t) (used : InUse t s) (now : Nat)
    (within : Within t.verified.length [range]) (shared : t.exclusiveOrigin = false) : Ready (giveTo now s t range) :=
  (giveTo_grows ready used now within).ready (giveTo_works now s t range) ready used.live (issue_pending _ now s)
    (issue_probePeers _ now s) (by simp [shared])
theorem markDuplicated_quiet (t : Transfer) : Quiet t t.markDuplicated :=
  Quiet.same rfl rfl rfl rfl rfl rfl rfl id
theorem endgamePieces_shared (some : t.endgamePieces ≠ []) :
    t.exclusiveOrigin = false ∧ t.floorReached = false := by
  unfold endgamePieces at some
  dsimp only at some
  split_ifs at some with closed
  · exact absurd rfl some
  · simp only [not_or] at closed
    exact ⟨by simpa using closed.1,by simpa using closed.2.1⟩
theorem mem_endgamePieces {i : Nat} (member : i ∈ t.endgamePieces) :
    i < t.verified.length ∧ t.isVerified i = false := by
  unfold endgamePieces at member
  dsimp only at member
  split_ifs at member
  · cases member
  · have kept := List.mem_filter.mp (List.mem_filter.mp member).1
    exact ⟨List.mem_range.mp kept.1,by simpa using kept.2⟩
theorem endgamePieces_nodup (t : Transfer) : t.endgamePieces.Nodup := by
  unfold endgamePieces
  dsimp only
  split_ifs
  · exact List.nodup_nil
  · exact (List.nodup_range.filter _).filter _
theorem endgameTarget_some (chosen : t.endgameTarget now = some s) :
    t.endgamePieces ≠ [] := by
  unfold endgameTarget at chosen
  split_ifs at chosen with quiet
  all_goals exact (not_or.mp quiet).1
/-- The target of the endgame: an idle peer in use, or origin in a mixed transfer
    when every peer in use has work. -/
theorem endgameTarget_cases (chosen : t.endgameTarget now = some s) :
    (∃ lane, t.lanes.get? s = some lane ∧ lane.retired = false ∧ lane.idle ∧
      (t.peerOnly = true → s ∉ t.probePeers ∧ (positive lane.estimate.rate).isSome ∧
        t.activePeerOnlyHolders < max t.config.maxHolders 1) ∧ (t.peerOnly = false → s.isPeer = true)) ∨
      s = .origin ∧ t.peerOnly = false ∧ ∀ entry ∈ t.livePeers, ¬ entry.2.idle := by
  unfold endgameTarget at chosen
  split_ifs at chosen with quiet only
  · left
    unfold peerOnlyEndgameSource at chosen
    split_ifs at chosen with full
    obtain ⟨entry,best,rfl⟩ := Option.map_eq_some_iff.mp chosen
    obtain ⟨listed,use⟩ := List.mem_filter.mp (fastest_mem best)
    simp only [decide_eq_true_eq] at use
    exact ⟨entry.2,OrderedMap.mem_entries.mp listed,use.1,use.2.1,fun _ => ⟨use.2.2.1,use.2.2.2,by omega⟩,
      fun mixed => absurd only (by simp [mixed])⟩
  · cases best : fastest (fun lane => (positive lane.estimate.rate).getD 0) (t.livePeers.filter (fun entry =>
      entry.2.idle)) with
    | none =>
      rw [best] at chosen
      simp only [Option.map_none,Option.getD_none,Option.some.injEq] at chosen
      refine .inr ⟨chosen.symm,by simpa using only,fun entry live idle => ?_⟩
      have empty : t.livePeers.filter (fun entry => entry.2.idle) = [] := by
        cases filtered : t.livePeers.filter (fun entry => entry.2.idle) with
        | nil => rfl
        | cons e rest =>
          rw [filtered] at best
          unfold fastest at best
          split at best
          · cases best
          · split_ifs at best
      have kept : entry ∈ t.livePeers.filter (fun entry => entry.2.idle) :=
        List.mem_filter.mpr ⟨live,by simpa using idle⟩
      rw [empty] at kept
      cases kept
    | some entry =>
      rw [best] at chosen
      simp only [Option.map_some,Option.getD_some,Option.some.injEq] at chosen
      obtain ⟨listed,idle⟩ := List.mem_filter.mp (fastest_mem best)
      obtain ⟨found,peer,use⟩ := mem_livePeers.mp listed
      subst chosen
      exact .inl ⟨entry.2,found,use,by simpa using idle,fun is => absurd is only,fun _ => peer⟩
theorem endgameTarget_used (ready : Ready t)
    (chosen : t.endgameTarget now = some s) : InUse t s := by
  rcases endgameTarget_cases chosen with ⟨lane,found,use,_⟩ | ⟨rfl,mixed,_⟩
  · exact ⟨lane,found,use⟩
  · exact ready.homed mixed
/-- What each range given to the target preserves, with the ranges still to come,
    holds after the last one. -/
theorem gives_induction (now : Nat) {P : List PieceRange → Transfer → Prop}
    (one : ∀ u range rest, Ready u → InUse u s → Within u.verified.length (range :: rest) → P (range :: rest) u →
      P rest (giveTo now s u range)) (ranges : List PieceRange) :
    ∀ {t : Transfer}, Ready t → InUse t s → t.exclusiveOrigin = false → Within t.verified.length ranges →
      P ranges t → P [] (ranges.foldl (giveTo now s) t) ∧ Ready (ranges.foldl (giveTo now s) t) := by
  induction ranges with
  | nil => intro t ready _ _ _ holds; exact ⟨holds,ready⟩
  | cons range rest ih =>
    intro t ready used shared within holds
    have first : Within t.verified.length [range] := fun r member => within r (by simp_all)
    have works := giveTo_works now s t range
    refine ih (giveTo_ready ready used now first shared) ((giveTo_grows ready used now first).inUse used)
      (works.exclusive.trans shared) ?_ (one t range rest ready used within holds)
    rw [works.verified]
    exact fun r member => within r (by simp [member])
theorem endgame_gives (ready : Ready t)
    (chosen : t.endgameTarget now = some s) :
    t.endgame now = (runs t.endgamePieces).foldl (giveTo now s) t.markDuplicated := by
  rw [endgame_target,chosen]
  dsimp only
  cases s with
  | peer p => rfl
  | origin =>
    have marked : Ready t.markDuplicated := Give.ready (.notes (markDuplicated_quiet t)) ready
    have mixed : t.markDuplicated.peerOnly = false := by
      rcases endgameTarget_cases chosen with ⟨lane,found,_⟩ | ⟨_,mixed,_⟩
      · by_contra only
        have none := ready.homeless (by simpa [markDuplicated] using only)
        rw [found] at none
        cases none
      · exact mixed
    have within : Within t.markDuplicated.verified.length (runs t.endgamePieces) :=
      within_runs (fun i member => (mem_endgamePieces member).1)
    have shared : t.markDuplicated.exclusiveOrigin = false :=
      (endgamePieces_shared (endgameTarget_some chosen)).1
    show List.foldl (fun t range => t.queueOrigin now range) t.markDuplicated (runs t.endgamePieces) = _
    generalize t.markDuplicated = u at marked mixed within shared
    generalize runs t.endgamePieces = ranges at within
    induction ranges generalizing u with
    | nil => rfl
    | cons range rest ih =>
      have used := marked.homed mixed
      obtain ⟨lane,found,_⟩ := used
      have same : u.queueOrigin now range = giveTo now .origin u range := by
        simp only [queueOrigin,mixed,Bool.false_eq_true,if_false,giveTo]
        rw [@openLane_present _ ⟨.origin,none,none⟩ _ found]
      have works := giveTo_works now .origin u range
      rw [List.foldl_cons,List.foldl_cons,same]
      refine ih _ (giveTo_ready marked (marked.homed mixed) now (fun r member => within r (by simp_all)) shared)
        (works.peerOnly.trans mixed) (works.exclusive.trans shared) ?_
      rw [works.verified]
      exact fun r member => within r (by simp [member])
theorem endgame_idle (none : t.endgameTarget now = none) : t.endgame now = t := by
  rw [endgame_target,none]
theorem endgame_induction (ready : Ready t) {P : List PieceRange → Transfer → Prop}
    (chosen : t.endgameTarget now = some s)
    (one : ∀ u range rest, Ready u → InUse u s → Within u.verified.length (range :: rest) → P (range :: rest) u →
      P rest (giveTo now s u range)) (holds : P (runs t.endgamePieces) t.markDuplicated) :
    P [] (t.endgame now) ∧ Ready (t.endgame now) := by
  have marked : Give t t.markDuplicated := .notes (markDuplicated_quiet t)
  rw [endgame_gives ready chosen]
  refine gives_induction now one _ (marked.ready ready) ?_ (endgamePieces_shared (endgameTarget_some chosen)).1
    (within_runs (fun i member => (mem_endgamePieces member).1)) holds
  exact (markDuplicated_quiet t).inUse.mpr (endgameTarget_used ready chosen)
theorem endgame_ready (ready : Ready t) (now : Nat) :
    Ready (t.endgame now) ∧ Works t (t.endgame now) := by
  cases chosen : t.endgameTarget now with
  | none => rw [endgame_idle chosen]; exact ⟨ready,Works.refl t⟩
  | some s =>
    obtain ⟨works,ready'⟩ := endgame_induction ready (P := fun _ u => Works t u) chosen
      (fun u range rest _ _ _ works => works.trans (giveTo_works now s u range)) (markDuplicated_quiet t).works
    exact ⟨ready',works⟩

/-! ### A tick -/

def watched (t : Transfer) : List Source := t.lanes.keys.filter (fun source => (t.watchAt source).isSome)
/-- The transfer once the listed requests are judged. -/
def judged (now : Nat) : List Source → Transfer → Transfer
  | [],t => t
  | source :: rest,t => judged now rest (if t.hopeless now source then t.abandon now source
      else { t with lanes := t.lanes.modify source (fun lane => { lane with checkedAt := now }) })
/-- The transfer at which a tick before the floor comes to the endgame. -/
def atEndgame (t : Transfer) (now : Nat) : Transfer := judged now t.watched t

theorem judged_acts (now : Nat) (sources : List Source) : ∀ {t : Transfer}, Ready t → t.peerOnly = false →
    Acts t (judged now sources t) := by
  induction sources with
  | nil => intro t _ _; exact .refl
  | cons s rest ih =>
    intro t ready mixed
    unfold judged
    have one : Acts t (if t.hopeless now s then t.abandon now s
        else { t with lanes := t.lanes.modify s (fun lane => { lane with checkedAt := now }) }) := by
      split_ifs
      · exact abandon_acts ready mixed now s
      · exact .single (.give (.notes (Quiet.modify t s (fun _ => rfl))))
    exact one.trans (ih (one.ready ready) (one.peerOnly.trans mixed))
theorem judge_judged (now : Nat) (sources : List Source) : ∀ {t : Transfer}, Ready t → t.peerOnly = false →
    judge now sources t = ((judged now sources t).endgame now).rebalanceOrigin now := by
  induction sources with
  | nil => intro t _ _; rfl
  | cons s rest ih =>
    intro t ready mixed
    have acts := judged_acts now [s] ready mixed
    have later := ih (acts.ready ready) (acts.peerOnly.trans mixed)
    unfold judge judged
    rw [if_neg (by simp [ready.running])]
    simp only [judged] at later
    split_ifs at later ⊢ <;> exact later
theorem cancelLanes_acts (sources : List Source) :
    ∀ (t : Transfer) (pieces : List Nat), sources.Nodup → (∀ s ∈ sources, s.isPeer = true ∧ t.flight s ≠ []) →
      Acts t (sources.foldl cancelLane (t,pieces)).1 := by
  induction sources with
  | nil => intro t pieces _ _; exact .refl
  | cons s rest ih =>
    intro t pieces distinct flying
    obtain ⟨other,apart⟩ := List.nodup_cons.mp distinct
    obtain ⟨peer,flies⟩ := flying s (by simp)
    cases s with
    | origin => cases peer
    | peer p =>
      have act : Act t ((t.push (.cancel p)).retire (.peer p)).1 := .retires (.inl rfl) (fun _ => flies)
      refine Relation.ReflTransGen.head act (ih _ _ apart (fun s member => ⟨(flying s (by simp [member])).1,?_⟩))
      show ((t.push (.cancel p)).retire (.peer p)).1.flight s ≠ []
      rw [retire_flight,if_neg (by rintro rfl; exact other member)]
      exact (flying s (by simp [member])).2
theorem mem_lateLanes (member : s ∈ t.lateLanes) :
    s.isPeer = true ∧ ∃ lane, t.lanes.get? s = some lane ∧ lane.retired = false ∧ ¬ lane.idle := by
  obtain ⟨entry,listed,rfl⟩ := List.mem_map.mp member
  obtain ⟨live,work⟩ := List.mem_filter.mp listed
  obtain ⟨found,peer,use⟩ := mem_livePeers.mp live
  exact ⟨peer,entry.2,found,use,by simpa using work⟩
theorem lateLanes_nodup (t : Transfer) : t.lateLanes.Nodup :=
  (entries_nodup t).sublist ((List.filter_sublist.trans List.filter_sublist).map _)
theorem Busy.flying (busy : Busy t s) (found : t.lanes.get? s = some lane)
    (work : ¬ lane.idle) : t.flight s ≠ [] := by
  rw [flight_found found]
  intro none
  have flight : lane.inFlight = [] := List.map_eq_nil_iff.mp none
  exact busy lane found (fun queue => work ⟨flight,queue⟩) flight
theorem reachFloor_acts (ready : Ready t) (mixed : t.peerOnly = false) (busy : ∀ s, Busy t s)
    (now : Nat) : Acts t (t.reachFloor now) := by
  have marked : Give t { t with floorReached := true } :=
    .notes (Quiet.same rfl rfl rfl rfl rfl rfl rfl (fun _ => rfl))
  have ready' := marked.ready ready
  unfold reachFloor
  dsimp only
  obtain ⟨_,_,inside⟩ := cancelLanes_loses ({ t with floorReached := true } : Transfer).lateLanes
    (fun s => lateLanes_peer) _ { t with floorReached := true } [] (Loses.refl ready'.orderly) (Works.refl _) (by simp)
  have acts := cancelLanes_acts ({ t with floorReached := true } : Transfer).lateLanes
    { t with floorReached := true } [] (lateLanes_nodup _) (fun s member => by
      obtain ⟨peer,lane,found,_,work⟩ := mem_lateLanes member
      exact ⟨peer,Busy.flying (t := { t with floorReached := true }) (busy s) found work⟩)
  generalize (({ t with floorReached := true } : Transfer).lateLanes.foldl cancelLane
    ({ t with floorReached := true },[])) = retired at inside acts ⊢
  have member : ∀ i, i ∈ ((retired.2.filter (fun index => ¬ retired.1.covered index)).insertionSort (· ≤ ·)).dedup ↔
      i ∈ retired.2 ∧ ¬ retired.1.covered i := by
    intro i
    rw [List.mem_dedup,List.mem_insertionSort,List.mem_filter]
    simp
  refine (Relation.ReflTransGen.head (Act.give marked) acts).trans
    (Gives.acts (queueOrigins_acts now _ (acts.ready ready')
    (acts.peerOnly.trans mixed) (within_runs ?_) ?_ ?_))
  · intro i listed
    rw [acts.works.verified]
    exact inside i ((member i).mp listed).1
  · rw [indices_runs]; exact List.nodup_dedup _
  · rw [indices_runs]; exact fun i listed => ((member i).mp listed).2
/-- A tick of a running transfer: a peer-only one fails at its floor, or comes to
    the endgame; a mixed one takes its peers out at the floor, or judges the watched
    requests, comes to the endgame and rebalances. -/
theorem tick_cases (ready : Ready t) (busy : t.peerOnly = false → ∀ s, Busy t s) (now : Nat) :
    (t.peerOnly = true ∧ t.floorAt ≤ now ∧ t.tick now = { t with floorReached := true }.fail) ∨
    (t.peerOnly = true ∧ now < t.floorAt ∧ t.tick now = t.endgame now) ∨
    (t.peerOnly = false ∧ t.floorReached = false ∧ t.floorAt ≤ now ∧ t.tick now = t.reachFloor now ∧
      Acts t (t.tick now)) ∨
    (t.peerOnly = false ∧ (t.floorReached = true ∨ now < t.floorAt) ∧ Acts t (t.atEndgame now) ∧
      Acts ((t.atEndgame now).endgame now) (t.tick now)) := by
  unfold tick
  rw [if_neg (by simp [ready.running])]
  cases mode : t.peerOnly with
  | true =>
    by_cases floor : t.floorAt ≤ now
    · exact .inl ⟨rfl,floor,by simp [floor]⟩
    · exact .inr (.inl ⟨rfl,by omega,by simp [floor]⟩)
  | false =>
    by_cases floor : t.floorReached = false ∧ t.floorAt ≤ now
    · refine .inr (.inr (.inl ⟨rfl,floor.1,floor.2,by simp [floor],?_⟩))
      simp only [Bool.false_eq_true,if_false,floor]
      exact reachFloor_acts ready mode (busy mode) now
    · refine .inr (.inr (.inr ⟨rfl,?_,?_,?_⟩))
      · by_cases reached : t.floorReached = true
        · exact .inl reached
        · exact .inr (not_le.mp (fun low => floor ⟨by simpa using reached,low⟩))
      · exact judged_acts now _ ready mode
      · have acts := judged_acts now t.watched ready mode
        rw [if_neg (by simp),if_neg floor]
        show Acts _ (judge now t.watched t)
        rw [judge_judged now t.watched ready mode]
        exact (rebalanceOrigin_acts (endgame_ready (acts.ready ready) now).1 now).acts

/-! ### A response -/

section
variable (sha256 : List UInt8 → Digest)

/-- A response taken out of flight and checked. -/
def response (t : Transfer) (source : Source) (range : PieceRange) (bytes : List UInt8) : Checked :=
  range.indices.foldl (checkPiece sha256 bytes (t.pieceRangeBytes range).1)
    ⟨{ t with lanes := t.lanes.modify source (fun lane => lane.answered range) },false,false⟩
/-- How long a response to a range is. -/
def rangeLength (t : Transfer) (range : PieceRange) : Nat :=
  (t.pieceRangeBytes range).2 - (t.pieceRangeBytes range).1

/-- A response of a source is ignored, fails the source by its length, shows a bad
    piece or is accepted. -/
theorem delivered_cases (running : t.finished = false)
    (early : t.peerOnly = true → now < t.floorAt) (source : Source) (range : PieceRange) (bytes : List UInt8) :
    (t.delivered sha256 now source range bytes = t ∧
      ∀ lane, t.lanes.get? source = some lane → ∀ sent ∈ lane.inFlight, sent.1 ≠ range) ∨
    ∃ lane sent, t.lanes.get? source = some lane ∧ (range,sent) ∈ lane.inFlight ∧
      ((bytes.length ≠ t.rangeLength range ∧ t.delivered sha256 now source range bytes = t.failed now source) ∨
      (bytes.length = t.rangeLength range ∧ (response sha256 t source range bytes).bad = true ∧
        t.delivered sha256 now source range bytes =
          (response sha256 t source range bytes).transfer.badPiece now source) ∨
      (bytes.length = t.rangeLength range ∧ (response sha256 t source range bytes).bad = false ∧
        t.delivered sha256 now source range bytes =
          accept sha256 (response sha256 t source range bytes) now source sent lane.firstByteAt
            (t.rangeLength range))) := by
  unfold delivered
  have isOpen : ¬ (t.peerOnly = true ∧ t.floorAt ≤ now) := fun both => absurd both.2 (not_le.mpr (early both.1))
  rw [if_neg isOpen,if_neg (by simp [running])]
  cases found : t.lanes.get? source with
  | none => exact .inl ⟨rfl,by simp⟩
  | some lane =>
    cases seen : lane.inFlight.find? (·.1 = range) with
    | none =>
      refine .inl ⟨by simp only [seen],fun other here sent member => ?_⟩
      cases here
      simpa using List.find?_eq_none.mp seen sent member
    | some entry =>
      obtain ⟨r,sent⟩ := entry
      have same : r = range := by simpa using List.find?_some seen
      subst same
      refine .inr ⟨lane,sent,rfl,List.mem_of_find?_eq_some seen,?_⟩
      simp only [seen]
      by_cases long : bytes.length ≠ (t.pieceRangeBytes r).2 - (t.pieceRangeBytes r).1
      · exact .inl ⟨long,by rw [if_pos long]⟩
      · rw [if_neg long]
        have whole : bytes.length = t.rangeLength r := not_not.mp long
        cases bad : (response sha256 t source r bytes).bad with
        | true => exact .inr (.inl ⟨whole,rfl,by unfold response at bad ⊢; simp only [bad,if_true]⟩)
        | false =>
          refine .inr (.inr ⟨whole,rfl,?_⟩)
          unfold response at bad ⊢
          simp only [bad,Bool.false_eq_true,if_false]
          rfl

/-- What the check of a response leaves alone and what it finds. -/
theorem response_facts (orderly : Orderly t)
    (found : t.lanes.get? source = some lane) {sent : Nat} (flying : (range,sent) ∈ lane.inFlight)
    (bytes : List UInt8) :
    let c := response sha256 t source range bytes
    (c.transfer = { t with
      lanes := t.lanes.modify source (fun lane => lane.answered range)
      data := c.transfer.data, verified := c.transfer.verified }) ∧
    c.transfer.verified.length = t.verified.length ∧ range.start < range.stop ∧ range.stop ≤ t.verified.length ∧
    (∀ i, t.isVerified i = true → c.transfer.isVerified i = true) ∧
    (∀ i, i ∉ range.indices → c.transfer.isVerified i = t.isVerified i) ∧
    (c.bad = false → ∀ i ∈ range.indices, c.transfer.isVerified i = true) ∧
    (c.bad = true → ∃ i ∈ range.indices, c.transfer.isVerified i = false) := by
  have inFlight : range ∈ lane.work := List.mem_append_left _ (List.mem_map.mpr ⟨(range,sent),flying,rfl⟩)
  have within := orderly.within source lane found range inFlight
  obtain ⟨frame,length⟩ := checkPieces_frame sha256 bytes (t.pieceRangeBytes range).1 range.indices
    ⟨{ t with lanes := t.lanes.modify source (fun lane => lane.answered range) },false,false⟩
  have checks := checkPieces_checks sha256 bytes (t.pieceRangeBytes range).1 range.indices
    ⟨{ t with lanes := t.lanes.modify source (fun lane => lane.answered range) },false,false⟩
    List.nodup_range' (fun i member => lt_of_lt_of_le (mem_range_indices.mp member).2 within.2)
  refine ⟨frame,length,within.1,within.2,checks.grows,checks.others,fun good => (checks.good good).2,fun bad => ?_⟩
  exact (checks.bad bad).resolve_left (by simp)
theorem answered_thins (t : Transfer) (source : Source) (range : PieceRange) :
    Thins t { t with lanes := t.lanes.modify source (fun lane => lane.answered range) } := by
  intro s lane' found
  dsimp only at found
  rw [OrderedMap.get?_modify] at found
  split_ifs at found
  · obtain ⟨lane,old,rfl⟩ := Option.map_eq_some_iff.mp found
    refine ⟨lane,old,?_⟩
    simp only [Lane.answered,Lane.work,indices_append]
    exact List.Sublist.append_right ((List.eraseP_sublist.map _).flatMap PieceRange.indices) _
  · exact ⟨lane',found,List.Sublist.refl _⟩
theorem response_ready (ready : Ready t)
    (found : t.lanes.get? source = some lane) {sent : Nat} (flying : (range,sent) ∈ lane.inFlight)
    (bytes : List UInt8) : Ready (response sha256 t source range bytes).transfer := by
  obtain ⟨frame,length,_⟩ := response_facts sha256 ready.orderly found flying bytes
  have orderly := answered_orderly ready.orderly source range
  have thins := answered_thins t source range
  rw [frame]
  refine ⟨ready.running,⟨?_,orderly.gone,orderly.keyed⟩,?_,?_,?_,ready.distinct,ready.unprobed,?_⟩
  · intro s other here
    dsimp only
    rw [length]
    exact orderly.within s other here
  · intro mixed
    obtain ⟨home,here,use⟩ := ready.homed mixed
    dsimp only [Homed]
    rw [OrderedMap.get?_modify,here]
    split_ifs
    · exact ⟨home.answered range,rfl,use⟩
    · exact ⟨home,rfl,use⟩
  · intro only
    dsimp only
    rw [OrderedMap.get?_modify,ready.homeless only]
    split_ifs <;> rfl
  · dsimp only
    rw [length]
    exact ready.pending
  · intro exclusive
    obtain ⟨single,apart⟩ := ready.owned exclusive
    exact ⟨fun s other here => thins.single single s other here,
      fun a b la lb differs fa fb => thins.apart apart a b la lb differs fa fb⟩

theorem issue_idle (found : t.lanes.get? s = some lane)
    (none : lane.queue = []) (now : Nat) : Quiet t (t.issue now s) := by
  unfold issue
  simp only [found]
  split_ifs with held
  · exact Quiet.refl t
  all_goals
    refine ⟨rfl,rfl,by simp [none,sendQueue],rfl,rfl,fun s' => ?_,fun _ h => .inl h,id,id⟩
    simp only [none,sendQueue]
    rw [OrderedMap.get?_modify]
    split_ifs with own
    · subst own
      rw [found]
      simp [Lane.sending,Lane.post,none]
    · rfl
theorem measure_quiet (t : Transfer) (now : Nat) (s : Source) (sent : Nat) (first : Option Nat) (bytes : Nat) :
    Quiet t (t.measure now s sent first bytes) := by
  unfold measure
  split
  · exact Quiet.refl t
  · dsimp only
    split_ifs
    · exact Quiet.refl t
    · exact Quiet.modify t s (fun _ => rfl)
theorem dropRedundant_list (t : Transfer) (now : Nat) (winner : Source) : ∃ sources : List Source,
    sources.Nodup ∧ (∀ s ∈ sources, s ≠ winner ∧ s.isPeer = true ∧ t.flight s ≠ []) ∧
      t.dropRedundant now winner = sources.foldl (dropLane now) t := by
  refine ⟨_,(entries_nodup t).sublist (List.filter_sublist.map _),?_,rfl⟩
  intro s member
  obtain ⟨entry,listed,rfl⟩ := List.mem_map.mp member
  obtain ⟨found,kept⟩ := List.mem_filter.mp listed
  simp only [decide_eq_true_eq] at kept
  refine ⟨kept.1,kept.2.1,?_⟩
  rw [flight_found (OrderedMap.mem_entries.mp found)]
  simpa using kept.2.2.2.1
/-- Dropping one redundant peer: it is cancelled and retired, and hand-outs follow. A
    peer-only transfer does not end by it, since another lane is in use and the floor
    has not come. -/
theorem dropLane_gives (ready : Ready t)
    (differs : .peer p ≠ winner) (early : t.peerOnly = true → now < t.floorAt ∧ InUse t winner) :
    Gives ((t.push (.cancel p)).retire (.peer p)).1 (dropLane now t (.peer p)) := by
  have pushed := push_ready ready (.cancel p)
  cases mode : t.peerOnly with
  | false => exact regive_acts pushed mode now p
  | true =>
    obtain ⟨before,used⟩ := early mode
    have still := (retire_tidy (pushed.tidy mode) (.peer p)).2 winner (Ne.symm differs) used
    have works := retire_works (t.push (.cancel p)) (.peer p)
    rcases assign_course (retire_ready pushed p) (works.peerOnly.trans mode) now
      (((t.push (.cancel p)).retire (.peer p)).2.filter (fun index =>
        ¬ ((t.push (.cancel p)).retire (.peer p)).1.covered index)) with gives | ⟨_,floor | none⟩
    · exact gives
    · rw [works.floorAt] at floor
      exact absurd floor (not_le.mpr before)
    · exact absurd still (none winner)
theorem Give.inUse {t t' : Transfer} (given : Give t t') (ready : Ready t) (used : InUse t s) :
    InUse t' s := by
  cases given with
  | notes quiet => exact quiet.inUse.mpr used
  | gives found _ now fit finishAt _ => exact (fit.grows ready.orderly found now finishAt).inUse used
  | tries found _ now fit finishAt _ => exact ((fit.grows ready.orderly found now finishAt).marked _).inUse used
  | issues found _ now => exact (issue_grows found now (ready.orderly.within _ _ found)).inUse used
  | yields claimed =>
    obtain ⟨lane,found,use⟩ := used
    unfold InUse claimOrigin
    dsimp only
    rw [OrderedMap.get?_modify,found]
    split_ifs
    · exact ⟨_,rfl,use⟩
    · exact ⟨lane,rfl,use⟩
theorem Gives.inUse {t t' : Transfer} (gives : Gives t t') (ready : Ready t) (used : InUse t s) :
    InUse t' s := by
  induction gives with
  | refl => exact used
  | tail first given ih =>
    have part : Gives t _ := first
    exact given.inUse (part.ready ready) ih
theorem dropRedundant_acts {t : Transfer} (ready : Ready t) {now : Nat} {winner : Source}
    (early : t.peerOnly = true → now < t.floorAt ∧ InUse t winner) : Acts t (t.dropRedundant now winner) := by
  obtain ⟨sources,distinct,others,same⟩ := dropRedundant_list t now winner
  rw [same]
  clear same
  induction sources generalizing t with
  | nil => exact .refl
  | cons s rest ih =>
    obtain ⟨absent,apart⟩ := List.nodup_cons.mp distinct
    obtain ⟨differs,peer,flying⟩ := others s (by simp)
    cases s with
    | origin => cases peer
    | peer p =>
      have act : Act t ((t.push (.cancel p)).retire (.peer p)).1 := .retires (.inl rfl) (fun _ => flying)
      have gives := dropLane_gives ready differs early
      have one : Acts t (dropLane now t (.peer p)) := Relation.ReflTransGen.head act gives.acts
      refine one.trans (ih (one.ready ready) (fun only => ?_) apart (fun s' member => ?_))
      · rw [one.peerOnly] at only
        refine ⟨by rw [one.works.floorAt]; exact (early only).1,gives.inUse (act.ready ready) ?_⟩
        exact (retire_tidy ((push_ready ready (.cancel p)).tidy only) (.peer p)).2 winner (Ne.symm differs)
          (early only).2
      · obtain ⟨differs',peer',flying'⟩ := others s' (by simp [member])
        refine ⟨differs',peer',fun none => ?_⟩
        have kept := gives.flight s'
        rw [none,List.prefix_nil,retire_flight,if_neg (by rintro rfl; exact absent member)] at kept
        exact flying' kept
theorem dropLane_kept (ready : Ready t) (differs : .peer p ≠ winner)
    (early : t.peerOnly = true → now < t.floorAt ∧ InUse t winner) : Ready (dropLane now t (.peer p)) ∧
      ((dropLane now t (.peer p)).peerOnly = true → now < (dropLane now t (.peer p)).floorAt ∧
        InUse (dropLane now t (.peer p)) winner) := by
  have pushed := push_ready ready (.cancel p)
  have taken := retire_ready pushed p
  have works := retire_works (t.push (.cancel p)) (.peer p)
  have gives := dropLane_gives ready differs early
  refine ⟨gives.ready taken,fun only => ?_⟩
  have mode : t.peerOnly = true := works.peerOnly.symm.trans (gives.works.peerOnly.symm.trans only)
  have floor : (dropLane now t (.peer p)).floorAt = t.floorAt := gives.works.floorAt.trans works.floorAt
  refine ⟨by rw [floor]; exact (early mode).1,gives.inUse taken ?_⟩
  exact (retire_tidy (pushed.tidy mode) (.peer p)).2 winner (Ne.symm differs) (early mode).2
theorem dropRedundant_induction {P : Transfer → Prop} (ready : Ready t)
    (early : t.peerOnly = true → now < t.floorAt ∧ InUse t winner)
    (drop : ∀ u p, Ready u → (u.peerOnly = true → now < u.floorAt ∧ InUse u winner) → .peer p ≠ winner → P u →
      P (dropLane now u (.peer p))) (holds : P t) : P (t.dropRedundant now winner) := by
  obtain ⟨sources,distinct,others,same⟩ := dropRedundant_list t now winner
  rw [same]
  have peers : ∀ s ∈ sources, s ≠ winner ∧ s.isPeer = true :=
    fun s member => ⟨(others s member).1,(others s member).2.1⟩
  clear same others distinct
  induction sources generalizing t with
  | nil => exact holds
  | cons s rest ih =>
    obtain ⟨differs,peer⟩ := peers s (by simp)
    cases s with
    | origin => cases peer
    | peer p =>
      obtain ⟨ready',early'⟩ := dropLane_kept ready differs early
      exact ih ready' early' (drop t p ready early differs holds) (fun s member => peers s (by simp [member]))
/-- The transfer once a response of a source is accepted: a fresh piece ends the
    probe of its source. -/
def credited (c : Checked) (source : Source) : Transfer := if c.fresh then c.transfer.endProbe source else c.transfer
theorem credited_ready (ready : Ready c.transfer) (source : Source) : Ready (credited c source) := by
  unfold credited
  split_ifs
  · exact endProbe_ready ready source
  · exact ready
theorem credited_frame (c : Checked) (source : Source) : ∃ probes available, credited c source =
    { c.transfer with probePeers := probes, probeAvailable := available } := by
  unfold credited
  split_ifs <;> exact ⟨_,_,rfl⟩
/-- The transfer once the peers are dropped whose work an accepted response made
    redundant. -/
def accepted (c : Checked) (now : Nat) (source : Source) (sent : Nat) (first : Option Nat) (bytes : Nat) : Transfer :=
  ((credited c source).measure now source sent first bytes).dropRedundant now source
/-- An accepted response: acts, and then the end when every piece is verified, or a
    last issue and a refill. -/
theorem accept_split (ready : Ready c.transfer)
    (early : c.transfer.peerOnly = true → now < c.transfer.floorAt ∧ InUse c.transfer source) (sent : Nat)
    (first : Option Nat) (bytes : Nat) : let u := accepted c now source sent first bytes
      Acts (credited c source) u ∧
      ((u.verified.all id = true ∧ accept sha256 c now source sent first bytes = u.finish sha256) ∨
        (u.verified.all id = false ∧ accept sha256 c now source sent first bytes =
          (u.issue now source).refill now)) := by
  unfold accept accepted
  dsimp only
  obtain ⟨probes,available,frame⟩ := credited_frame c source
  have ready := credited_ready ready source
  have early : (credited c source).peerOnly = true → now < (credited c source).floorAt ∧
      InUse (credited c source) source := by
    rw [frame]
    exact early
  rw [show (if c.fresh = true then c.transfer.endProbe source else c.transfer) = credited c source from rfl]
  generalize credited c source = probed at ready early
  have measured : Acts probed (probed.measure now source sent first bytes) :=
    .single (.give (.notes (measure_quiet probed now source sent first bytes)))
  have ready' := measured.ready ready
  have winner : InUse probed source → InUse (probed.measure now source sent first bytes) source :=
    (measure_quiet probed now source sent first bytes).inUse.mpr
  have dropped : Acts probed ((probed.measure now source sent first bytes).dropRedundant now source) :=
    measured.trans (@dropRedundant_acts _ ready' now source (fun only => by
      rw [measured.peerOnly] at only
      exact ⟨by rw [measured.works.floorAt]; exact (early only).1,winner (early only).2⟩))
  refine ⟨dropped,?_⟩
  generalize (probed.measure now source sent first bytes).dropRedundant now source = u
  by_cases complete : u.verified.all id = true
  · exact .inl ⟨complete,by rw [if_pos complete]⟩
  · exact .inr ⟨by simpa using complete,by rw [if_neg complete]⟩
theorem issue_gives (ready : Ready t) (now : Nat) (s : Source) : Give t (t.issue now s) := by
  cases found : t.lanes.get? s with
  | none =>
    have same : t.issue now s = t := by simp only [issue,found]
    rw [same]
    exact .notes (Quiet.refl t)
  | some lane =>
    cases use : lane.retired with
    | false => exact .issues found use now
    | true =>
      have idle := ready.orderly.gone s lane found use
      exact .notes (issue_idle found (List.append_eq_nil_iff.mp idle).2 now)
theorem refill_course (ready : Ready t) (now : Nat) :
    Gives t (t.refill now) ∨ ∃ u, Gives t u ∧ t.refill now = u.fail := by
  unfold refill
  split_ifs with only
  · exact (refillPeerOnly_course ready now).imp id (·.1)
  · exact .inl (rebalanceOrigin_acts ready now)
theorem accept_course (ready : Ready c.transfer)
    (early : c.transfer.peerOnly = true → now < c.transfer.floorAt ∧ InUse c.transfer source) (sent : Nat)
    (first : Option Nat) (bytes : Nat) : ∃ u, Acts (credited c source) u ∧
      ((u.verified.all id = true ∧ accept sha256 c now source sent first bytes = u.finish sha256) ∨
        (u.verified.all id = false ∧ Course u (accept sha256 c now source sent first bytes))) := by
  obtain ⟨acts,complete | ⟨incomplete,same⟩⟩ := accept_split sha256 ready early sent first bytes
  · exact ⟨_,acts,.inl complete⟩
  refine ⟨_,acts,.inr ⟨incomplete,?_⟩⟩
  generalize accepted c now source sent first bytes = u at acts same
  have ready' := acts.ready (credited_ready ready source)
  have issued : Give u (u.issue now source) := issue_gives ready' now source
  refine Course.after (.single (.give issued)) ?_
  rw [same]
  rcases refill_course (issued.ready ready') now with gives | ⟨v,gives,failing⟩
  · exact .inl gives.acts
  · exact .inr ⟨v,gives.acts,failing⟩

/-! ### Starting -/

/-- A transfer in any mode before its first call. -/
structure Newborn (n : Nat) (t : Transfer) : Prop where
  length : t.verified.length = n
  pieces : 0 < n
  running : t.finished = false
  started : t.started = false
  lanes : t.lanes = .empty
  pending : t.peerPending = []
  commands : t.commands = []
  fresh : ∀ i, t.isVerified i = false
  mixed : t.exclusiveOrigin = true → t.peerOnly = false
  floor : t.floorReached = false
  unstarted : t.originStarted = false
  pieceSize : t.pieceSize = commitmentPieceSize t.size

theorem new_newborn {size : Nat} {pieces : List String} {deadline : Nat}
    (made : new config size digest pieces deadline = some t) :
    Newborn pieces.length t ∧ t.peerOnly = false ∧ t.exclusiveOrigin = false ∧ t.config = config := by
  unfold new at made
  cases counted : pieceCount size with
  | none => simp [counted] at made
  | some count =>
    simp only [counted,Option.bind_eq_bind,Option.bind_some] at made
    split_ifs at made with fits
    simp only [Option.bind_eq_some_iff] at made
    obtain ⟨hashes,_,whole,_,same⟩ := made
    cases same
    have length : pieces.length = count := not_not.mp fits
    refine ⟨⟨by simp [length],?_,rfl,rfl,rfl,rfl,rfl,fun i => ?_,by simp,rfl,rfl,rfl⟩,rfl,rfl,rfl⟩
    · rw [length]; exact pieceCount_pos counted
    · unfold isVerified
      dsimp only
      rw [List.getD_eq_getElem?_getD,List.getElem?_replicate]
      split_ifs <;> rfl
theorem new_counted {size : Nat} {pieces : List String} {deadline : Nat}
    (made : new config size digest pieces deadline = some t) : pieceCount size = some pieces.length := by
  unfold new at made
  cases counted : pieceCount size with
  | none => simp [counted] at made
  | some count =>
    simp only [counted,Option.bind_eq_bind,Option.bind_some] at made
    split_ifs at made with fits
    rw [not_not.mp fits]
theorem exclusive_newborn {size : Nat} {pieces : List String}
    {deadline : Nat} (made : (new config size digest pieces deadline).bind withExclusiveOrigin = some t) :
    Newborn pieces.length t ∧ t.peerOnly = false ∧ t.exclusiveOrigin = true ∧ t.config = config := by
  obtain ⟨t',first,second⟩ := Option.bind_eq_some_iff.mp made
  obtain ⟨newborn,mixed,_,settings⟩ := new_newborn first
  unfold withExclusiveOrigin at second
  split_ifs at second
  cases second
  exact ⟨⟨newborn.length,newborn.pieces,newborn.running,newborn.started,newborn.lanes,newborn.pending,newborn.commands,
    newborn.fresh,fun _ => mixed,newborn.floor,newborn.unstarted,newborn.pieceSize⟩,mixed,rfl,settings⟩
theorem peerOnly_newborn {size : Nat} {pieces : List String}
    {deadline : Nat} (made : newPeerOnly config size digest pieces deadline = some t) :
    Newborn pieces.length t ∧ t.peerOnly = true ∧ t.exclusiveOrigin = false ∧ t.config = config := by
  obtain ⟨t',first,same⟩ := Option.map_eq_some_iff.mp made
  subst same
  obtain ⟨newborn,_,shared,settings⟩ := new_newborn first
  exact ⟨⟨newborn.length,newborn.pieces,newborn.running,newborn.started,newborn.lanes,newborn.pending,newborn.commands,
    newborn.fresh,by simp [shared],newborn.floor,newborn.unstarted,newborn.pieceSize⟩,rfl,shared,settings⟩
theorem made_newborn {size : Nat} {pieces : List String} {deadline : Nat}
    (made : new config size digest pieces deadline = some t ∨
      (new config size digest pieces deadline).bind withExclusiveOrigin = some t ∨
      newPeerOnly config size digest pieces deadline = some t) : Newborn pieces.length t ∧ t.config = config := by
  rcases made with plain | exclusive | only
  · exact ⟨(new_newborn plain).1,(new_newborn plain).2.2.2⟩
  · exact ⟨(exclusive_newborn exclusive).1,(exclusive_newborn exclusive).2.2.2⟩
  · exact ⟨(peerOnly_newborn only).1,(peerOnly_newborn only).2.2.2⟩

/-- Every lane is in use and has no work. -/
def Unworked (t : Transfer) : Prop := ∀ s lane, t.lanes.get? s = some lane →
  lane.inFlight = [] ∧ lane.queue = [] ∧ lane.retired = false ∧ lane.estimate.source = s
theorem openSources_unworked (now : Nat) (estimates : List Estimate) : ∀ {t : Transfer}, Unworked t →
    Unworked (estimates.foldl (openSource now) t) := by
  induction estimates with
  | nil => intro t idle; exact idle
  | cons e rest ih =>
    intro t idle
    refine ih (t := openSource now t e) ?_
    unfold openSource
    split_ifs
    · exact idle
    · intro s lane found
      rw [openLane_get] at found
      split_ifs at found with own
      · cases old : t.lanes.get? s with
        | none => rw [old] at found; cases found; exact ⟨rfl,rfl,rfl,own.symm⟩
        | some other => rw [old] at found; cases found; exact idle s other old
      · exact idle s lane found
theorem openSources_frame (now : Nat) (estimates : List Estimate) : ∀ t : Transfer,
    estimates.foldl (openSource now) t = { t with lanes := (estimates.foldl (openSource now) t).lanes } := by
  induction estimates with
  | nil => intro t; rfl
  | cons e rest ih =>
    intro t
    rw [List.foldl_cons,ih]
    unfold openSource
    split_ifs <;> rfl
theorem openSources_origin (now : Nat) (estimates : List Estimate) : ∀ {t : Transfer},
    (t.peerOnly = true → t.lanes.get? .origin = none →
      (estimates.foldl (openSource now) t).lanes.get? .origin = none) ∧
    (t.peerOnly = false → ((∃ e ∈ estimates, e.source = .origin) ∨ (t.lanes.get? .origin).isSome = true) →
      ((estimates.foldl (openSource now) t).lanes.get? .origin).isSome = true) := by
  induction estimates with
  | nil => intro t; exact ⟨fun _ none => none,fun _ some => by simpa using some⟩
  | cons e rest ih =>
    intro t
    have mode : (openSource now t e).peerOnly = t.peerOnly := by unfold openSource; split_ifs <;> rfl
    refine ⟨fun only none => (ih (t := openSource now t e)).1 (mode.trans only) ?_,
      fun mixed some => (ih (t := openSource now t e)).2 (mode.trans mixed) ?_⟩
    · unfold openSource
      split_ifs with skipped
      · exact none
      · rw [openLane_get,if_neg]
        · exact none
        · intro own
          exact skipped ⟨only,by rw [← own]; rfl⟩
    · unfold openSource
      rw [if_neg (by simp [mixed]),openLane_get]
      rcases some with ⟨d,member,own⟩ | old
      · rcases List.mem_cons.mp member with rfl | later
        · exact .inr (by rw [if_pos own.symm]; rfl)
        · exact .inl ⟨d,later,own⟩
      · right
        split_ifs
        · rfl
        · exact old
theorem Unworked.ready (idle : Unworked t) (running : t.finished = false) (pending : t.peerPending = [])
    (homed : t.peerOnly = false → (t.lanes.get? .origin).isSome = true)
    (homeless : t.peerOnly = true → t.lanes.get? .origin = none)
    (unprobed : t.peerOnly = false → Source.origin ∉ t.probePeers) : Ready t := by
  have none : ∀ s lane, t.lanes.get? s = some lane → lane.work = [] := by
    intro s lane found
    simp [Lane.work,(idle s lane found).1,(idle s lane found).2.1]
  refine ⟨running,⟨?_,fun s lane found _ => none s lane found,fun s lane found => (idle s lane found).2.2.2⟩,
    ?_,homeless,by simp [pending],by simp [pending],unprobed,fun _ => ⟨?_,?_⟩⟩
  · intro s lane found r member
    rw [none s lane found] at member
    cases member
  · intro mixed
    obtain ⟨lane,found⟩ := Option.isSome_iff_exists.mp (homed mixed)
    exact ⟨lane,found,(idle _ lane found).2.2.1⟩
  · intro s lane found
    rw [none s lane found]
    exact List.nodup_nil
  · intro a b la lb _ fa _ i member
    rw [none a la fa] at member
    cases member

/-- The call starts the transfer: `start`, with an estimate of origin for a mixed
    one, or the start of a peer-only handle. -/
inductive Begins (t : Transfer) : Event → Prop
  | start {now : Nat} {peers : List Estimate} {origin : Estimate} {first rate : Option ℚ} {probes : List Nat}
      (fromOrigin : t.peerOnly = false → origin.source = .origin) : Begins t (.start now peers origin first rate probes)
  | peerOnly {now : Nat} {peers : List Estimate} {first rate : Option ℚ} {probes : List Nat}
      (only : t.peerOnly = true) : Begins t (.startPeerOnly now peers first rate probes)
/-- What a start does before it assigns: it opens lanes without work and marks the
    probes. -/
structure Opened (n : Nat) (t u : Transfer) : Prop where
  ready : Ready u
  idle : Unworked u
  config : u.config = t.config
  peerOnly : u.peerOnly = t.peerOnly
  exclusive : u.exclusiveOrigin = t.exclusiveOrigin
  object : u.object = t.object
  pieceSize : u.pieceSize = commitmentPieceSize u.size
  deadline : u.deadline = t.deadline
  count : u.verified.length = n
  fresh : ∀ i, u.isVerified i = false
  commands : u.commands = []
  allowed : u.probeAvailable = u.probePeers
  floor : u.floorReached = false
  unstarted : u.originStarted = false
  started : u.started = true
  pending : u.peerPending = []
/-- What a start does before it assigns. -/
def opening (t : Transfer) (now : Nat) (peers : List Estimate) (origin : Option Estimate)
    (first rate : Option ℚ) (probePeers : List Nat) : Transfer :=
  let listed := ((probePeers.map Source.peer).filter (fun source => ∃ peer ∈ peers, peer.source = source)).toFinset
  let probes := if t.peerOnly then
      listed ∪ ((peers.filter (fun peer => (positive peer.rate).isNone)).map (·.source)).toFinset
    else listed
  (peers ++ origin.toList).foldl (openSource now) { t with
    started := true, sharedFirstByteMs := first, sharedRate := rate, probePeers := probes, probeAvailable := probes }
theorem startInner_opening (t : Transfer) (now : Nat) (peers : List Estimate) (origin : Option Estimate)
    (first rate : Option ℚ) (probes : List Nat) : t.startInner now peers origin first rate probes =
      if t.peerOnly ∧ (t.started ∨ t.finished) then t
      else (t.opening now peers origin first rate probes).assign now
        (List.range (t.opening now peers origin first rate probes).verified.length) := by
  simp only [startInner,opening]
theorem Newborn.opening (newborn : Newborn n t) (now : Nat) (peers : List Estimate)
    {origin : Option Estimate} (first rate : Option ℚ) (probes : List Nat)
    (home : t.peerOnly = false → ∃ o, origin = some o ∧ o.source = .origin) :
    Opened n t (t.opening now peers origin first rate probes) ∧
      t.startInner now peers origin first rate probes =
        (t.opening now peers origin first rate probes).assign now (List.range n) := by
  rw [startInner_opening,if_neg (by simp [newborn.started,newborn.running])]
  unfold Transfer.opening
  dsimp only
  set listed := ((probes.map Source.peer).filter (fun source => ∃ peer ∈ peers, peer.source = source)).toFinset
  set marks := if t.peerOnly = true then
    listed ∪ ((peers.filter (fun peer => (positive peer.rate).isNone)).map (·.source)).toFinset else listed with named
  set begun : Transfer := { t with
    started := true, sharedFirstByteMs := first, sharedRate := rate, probePeers := marks, probeAvailable := marks }
  have none : ∀ s, begun.lanes.get? s = Option.none := fun s => by
    show t.lanes.get? s = Option.none
    rw [newborn.lanes]
    rfl
  have frame := openSources_frame now (peers ++ origin.toList) begun
  have idle := openSources_unworked now (peers ++ origin.toList) (t := begun)
    (fun s lane found => by rw [none s] at found; cases found)
  obtain ⟨homeless,homed⟩ := openSources_origin now (peers ++ origin.toList) (t := begun)
  generalize lanes : ((peers ++ origin.toList).foldl (openSource now) begun) = u at frame idle homeless homed
  have count : u.verified.length = n := by rw [frame]; exact newborn.length
  refine ⟨⟨idle.ready ?_ ?_ ?_ ?_ ?_,idle,?_,?_,?_,?_,?_,?_,count,?_,?_,?_,?_,?_,?_,?_⟩,by rw [count]⟩
  · rw [frame]; exact newborn.running
  · rw [frame]; exact newborn.pending
  · intro mixed
    rw [frame] at mixed
    obtain ⟨o,given,own⟩ := home mixed
    exact homed mixed (.inl ⟨o,by simp [given],own⟩)
  · intro only
    rw [frame] at only
    exact homeless only (none _)
  · intro mixed
    rw [frame] at mixed ⊢
    have mode : t.peerOnly = false := mixed
    show Source.origin ∉ marks
    rw [named,if_neg (by simp [mode])]
    simp [listed]
  all_goals rw [frame]
  · rfl
  · exact newborn.pieceSize
  · exact newborn.fresh
  · exact newborn.commands
  · exact newborn.floor
  · exact newborn.unstarted
  · exact newborn.pending
theorem begins_opening (newborn : Newborn n t) {e : Event} (begins : Begins t e) :
    ∃ now peers origin first rate probes, (t.peerOnly = true → origin = none) ∧
      Opened n t (t.opening now peers origin first rate probes) ∧
      handle sha256 t e = (t.opening now peers origin first rate probes).assign e.roster.1 (List.range n) := by
  cases begins with
  | @start now peers origin first rate probes fromOrigin =>
    refine ⟨now,peers,if t.peerOnly then none else some origin,first,rate,probes,fun only => if_pos only,
      newborn.opening now peers first rate probes (fun mixed => ⟨origin,?_,fromOrigin mixed⟩)⟩
    simp [mixed]
  | @peerOnly now peers first rate probes only =>
    refine ⟨now,peers,none,first,rate,probes,fun _ => rfl,?_⟩
    unfold handle startPeerOnlyWithProbePeers
    dsimp only
    rw [if_pos only]
    exact newborn.opening now peers first rate probes (fun mixed => by rw [only] at mixed; cases mixed)
theorem begins_opened (newborn : Newborn n t) {e : Event} (begins : Begins t e) :
    ∃ u, Opened n t u ∧ handle sha256 t e = u.assign e.roster.1 (List.range n) := by
  obtain ⟨now,peers,origin,first,rate,probes,_,opened⟩ := begins_opening sha256 newborn begins
  exact ⟨_,opened⟩
theorem Opened.bare {t u : Transfer} (opened : Opened n t u) (i : Nat) : ¬ u.covered i := by
  rw [covered_iff,not_or]
  refine ⟨by simp [opened.fresh i],?_⟩
  rintro ⟨s,lane,found,holds⟩
  obtain ⟨flight,queue,_⟩ := opened.idle s lane found
  have member := (Lane.holds_iff.mp holds).2
  rw [Lane.work,flight,queue] at member
  cases member
theorem Opened.course {t u : Transfer} (opened : Opened n t u) (now : Nat) :
    Course u (u.assign now (List.range n)) := by
  cases mode : u.peerOnly with
  | false =>
    refine .inl (Gives.acts (assign_acts opened.ready mode now List.nodup_range ?_ (fun i _ => opened.bare i)))
    intro i member
    rw [opened.count]
    exact List.mem_range.mp member
  | true =>
    rcases assign_course opened.ready mode now (List.range n) with gives | ⟨⟨v,gives,failing⟩,_⟩
    · exact .inl gives.acts
    · exact .inr ⟨v,gives.acts,failing⟩

end
end Transfer
end RelaySwarm.Transfers
