import RelaySwarm.TransferBracket

/-!
The floor of a mixed transfer. The tick that reaches it cancels each peer with work
once and queues what they had on origin; from then on no peer has work (`Calm`), so
nothing is ever handed to one again: a failure or a bracketed answer of a peer finds
no work, and planning, rebalancing and the endgame are skipped.
-/
namespace RelaySwarm.Transfers
open Pieces Planning
variable {t : Transfer} {n : Nat}
/-- A command past the floor: a fetch from origin, or the end. -/
def Command.pastFloor : Command → Prop
  | .fetchOrigin _ => True
  | .deliver _ => True
  | .fail => True
  | _ => False

namespace Transfer

/-! ### Only the floor's tick reaches the floor -/

theorem issue_floor (t : Transfer) (now : Nat) (s : Source) : (t.issue now s).floorReached = t.floorReached := by
  obtain ⟨_,_,_,same⟩ := issue_frame t now s
  rw [same]
theorem queueOrigin_floor (mixed : t.peerOnly = false) (now : Nat) (range : PieceRange) :
    (t.queueOrigin now range).floorReached = t.floorReached := by
  unfold queueOrigin
  rw [if_neg (by simp [mixed]),issue_floor]
  rfl
theorem folds_floor {α : Type} {f : Transfer → α → Transfer} (each : ∀ t a, (f t a).floorReached = t.floorReached)
    (as : List α) : ∀ t, (as.foldl f t).floorReached = t.floorReached := by
  induction as with
  | nil => intro t; rfl
  | cons a rest ih => intro t; rw [List.foldl_cons,ih,each]
theorem assign_floor (mixed : t.peerOnly = false) (now : Nat) (needed : List Nat) :
    (t.assign now needed).floorReached = t.floorReached := by
  rcases assign_mixed mixed now needed with ⟨same,_⟩ | ⟨index,_,_,same⟩ | ⟨_,_,same⟩
  · rw [same]
  · rw [same,queueOrigin_floor mixed]
  · rw [same]
    exact folds_floor (f := takeAssignment now) (fun t a => issue_floor _ now _) _ _
theorem retire_floor (t : Transfer) (s : Source) : (t.retire s).1.floorReached = t.floorReached := by
  obtain ⟨_,same⟩ := retire_frame t s
  rw [same]
theorem rebalanceOrigin_floor (t : Transfer) (now : Nat) : (t.rebalanceOrigin now).floorReached = t.floorReached := by
  rcases rebalanceOrigin_cases t now with same | ⟨_,planned,_,_,_,_,same⟩
  · rw [same]
  · rw [same,folds_floor]
    · split_ifs <;> rfl
    · intro t a
      unfold moveAssignment
      cases t.lanes.get? a.source with
      | none => rfl
      | some lane => exact issue_floor _ now _
theorem abandon_floor (mixed : t.peerOnly = false) (now : Nat) (s : Source) :
    (t.abandon now s).floorReached = t.floorReached := by
  cases s with
  | origin => rfl
  | peer p =>
    have retired := retire_works (t.push (.abandon p)) (.peer p)
    unfold abandon reassign
    dsimp only
    rw [rebalanceOrigin_floor,assign_floor (retired.peerOnly.trans mixed),retire_floor]
    rfl
theorem endgame_floor (ready : Ready t) (now : Nat) : (t.endgame now).floorReached = t.floorReached := by
  cases chosen : t.endgameTarget now with
  | none => rw [endgame_idle chosen]
  | some s =>
    exact (endgame_induction ready (P := fun _ u => u.floorReached = t.floorReached) chosen
      (fun u range rest _ _ _ same => (issue_floor _ now s).trans same) rfl).1
theorem judged_floor (now : Nat) (sources : List Source) : ∀ {t : Transfer}, t.peerOnly = false →
    (judged now sources t).floorReached = t.floorReached := by
  induction sources with
  | nil => intro t _; rfl
  | cons s rest ih =>
    intro t mixed
    unfold judged
    split_ifs
    · rw [ih ((abandon_works mixed now s).peerOnly.trans mixed),abandon_floor mixed]
    · exact ih (t := { t with lanes := t.lanes.modify s (fun lane => { lane with checkedAt := now }) }) mixed
/-- A tick that reaches the floor of a mixed transfer comes at or after it, and takes
    the peers out. -/
theorem tick_reaches (ready : Ready t) (mixed : t.peerOnly = false) {now : Nat}
    (before : t.floorReached = false) (reached : (t.tick now).floorReached = true) :
    t.floorAt ≤ now ∧ t.tick now = t.reachFloor now := by
  unfold tick at reached ⊢
  rw [if_neg (by simp [ready.running]),if_neg (by simp [mixed])] at reached ⊢
  by_cases floor : t.floorReached = false ∧ t.floorAt ≤ now
  · exact ⟨floor.2,if_pos floor⟩
  · rw [if_neg floor] at reached
    change (judge now t.watched t).floorReached = true at reached
    have acts := judged_acts now t.watched ready mixed
    rw [judge_judged now t.watched ready mixed,rebalanceOrigin_floor,endgame_floor (acts.ready ready),
      judged_floor now _ mixed,before] at reached
    cases reached

/-! ### Past the floor -/

structure Calm (t : Transfer) : Prop where
  reached : t.floorReached = true
  mixed : t.peerOnly = false
  idle : ∀ p lane, t.lanes.get? (.peer p) = some lane → lane.work = []
/-- The step tells nothing but fetches from origin and the end. -/
def Tells (t t' : Transfer) : Prop := ∃ cs, t'.commands = t.commands ++ cs ∧ ∀ c ∈ cs, Command.pastFloor c

theorem Tells.refl (t : Transfer) : Tells t t := ⟨[],by simp,by simp⟩
theorem Tells.trans {a b c : Transfer} (first : Tells a b) (second : Tells b c) : Tells a c := by
  obtain ⟨cs,said,fine⟩ := first
  obtain ⟨ds,thence,fine'⟩ := second
  refine ⟨cs ++ ds,by rw [thence,said,List.append_assoc],fun c member => ?_⟩
  exact (List.mem_append.mp member).elim (fine c) (fine' c)
theorem issue_tells (t : Transfer) (now : Nat) : Tells t (t.issue now .origin) := by
  obtain ⟨sent,_,commands⟩ := issue_sends t now .origin
  refine ⟨_,commands,fun c member => ?_⟩
  obtain ⟨range,_,rfl⟩ := List.mem_map.mp member
  trivial
theorem Calm.flight (calm : Calm t) (p : Nat) : t.flight (.peer p) = [] := by
  cases found : t.lanes.get? (.peer p) with
  | none => simp [Transfer.flight,found]
  | some lane => rw [flight_found found,(List.append_eq_nil_iff.mp (calm.idle p lane found)).1]
theorem Calm.cancels (calm : Calm t) : t.cancels = [] := by
  unfold Transfer.cancels
  rw [List.filterMap_eq_nil_iff]
  rintro ⟨s,lane⟩ member
  cases s with
  | origin => rfl
  | peer p => simpa using (List.append_eq_nil_iff.mp (calm.idle p lane (OrderedMap.mem_entries.mp member))).1
theorem Calm.fail (calm : Calm t) : Calm t.fail ∧ Tells t t.fail := by
  refine ⟨⟨calm.reached,calm.mixed,fun p lane found => closeOut_lanes t _ lane found⟩,[.fail],?_,
    by simp [Command.pastFloor]⟩
  simp [Transfer.fail,push,closeOut,calm.cancels]
theorem rebalanceOrigin_reached (reached : t.floorReached = true) (now : Nat) :
    t.rebalanceOrigin now = t := by
  unfold rebalanceOrigin
  rw [if_pos (.inr reached)]
theorem Calm.issue (calm : Calm t) (now : Nat) : Calm (t.issue now .origin) := by
  have works := issue_works t now .origin
  refine ⟨(issue_floor t now .origin).trans calm.reached,works.peerOnly.trans calm.mixed,fun p lane found => ?_⟩
  unfold Transfer.issue at found
  cases here : t.lanes.get? .origin with
  | none => rw [here] at found; exact calm.idle p lane found
  | some origin =>
    rw [here] at found
    dsimp only at found
    split_ifs at found
    · exact calm.idle p lane found
    all_goals
      rw [OrderedMap.get?_modify_of_ne _ _ (by simp)] at found
      exact calm.idle p lane found
theorem Calm.retire (calm : Calm t) (p : Nat) :
    Calm (t.retire (.peer p)).1 ∧ (t.retire (.peer p)).2 = [] ∧ (t.retire (.peer p)).1.commands = t.commands := by
  obtain ⟨_,same⟩ := retire_frame t (.peer p)
  refine ⟨⟨by rw [same]; exact calm.reached,by rw [same]; exact calm.mixed,fun q lane found => ?_⟩,?_,by rw [same]⟩
  · obtain ⟨old,before,fewer⟩ := retire_thins t (.peer p) (.peer q) lane found
    rcases retire_cases t (.peer p) with ⟨_,unchanged⟩ | ⟨mine,own,after,_⟩
    · rw [unchanged] at found
      exact calm.idle q lane found
    · rw [after] at found
      dsimp only at found
      rw [OrderedMap.get?_modify] at found
      split_ifs at found
      · obtain ⟨_,_,rfl⟩ := Option.map_eq_some_iff.mp found
        rfl
      · exact calm.idle q lane found
  · unfold Transfer.retire
    cases found : t.lanes.get? (.peer p) with
    | none => rfl
    | some lane => simp [calm.idle p lane found]
theorem Calm.dropRedundant (calm : Calm t) (now : Nat) (winner : Source) : t.dropRedundant now winner = t := by
  obtain ⟨sources,_,flying,same⟩ := dropRedundant_list t now winner
  rw [same]
  cases sources with
  | nil => rfl
  | cons s rest =>
    obtain ⟨_,peer,sends⟩ := flying s (by simp)
    cases s with
    | origin => cases peer
    | peer p => exact absurd (calm.flight p) sends

section
variable (sha256 : List UInt8 → Digest)

theorem Calm.finish (calm : Calm t) : Calm (t.finish sha256) ∧ Tells t (t.finish sha256) := by
  unfold Transfer.finish
  split_ifs
  · exact calm.fail
  · refine ⟨⟨calm.reached,calm.mixed,fun p lane found => closeOut_lanes t _ lane found⟩,[.deliver t.data],?_,
      by simp [Command.pastFloor]⟩
    simp [push,closeOut,calm.cancels]
theorem Calm.accept {c : Checked} (calm : Calm c.transfer) (now sent : Nat) (first : Option Nat) (bytes : Nat) :
    Calm (accept sha256 c now .origin sent first bytes) ∧
      Tells c.transfer (accept sha256 c now .origin sent first bytes) := by
  obtain ⟨_,_,frame⟩ := credited_frame c .origin
  have credit : Calm (credited c .origin) := by
    rw [frame]
    exact ⟨calm.reached,calm.mixed,calm.idle⟩
  have said : (credited c .origin).commands = c.transfer.commands := by rw [frame]
  have tells : ∀ {u}, Tells (credited c .origin) u → Tells c.transfer u := by
    rintro u ⟨cs,same,fine⟩
    exact ⟨cs,by rw [same,said],fine⟩
  unfold Transfer.accept
  dsimp only
  rw [show (if c.fresh = true then c.transfer.endProbe .origin else c.transfer) = credited c .origin from rfl]
  have measured : (credited c .origin).measure now .origin sent first bytes = credited c .origin := by
    unfold measure
    cases (credited c .origin).lanes.get? .origin <;> simp [Source.isPeer]
  rw [measured,credit.dropRedundant]
  split_ifs
  · exact ⟨(credit.finish sha256).1,tells (credit.finish sha256).2⟩
  · have issued := credit.issue now
    unfold refill
    rw [if_neg (by simp [issued.mixed]),rebalanceOrigin_reached issued.reached]
    exact ⟨issued,tells (issue_tells _ now)⟩
theorem Calm.failed (ready : Ready t) (calm : Calm t) (now : Nat) (s : Source) :
    Calm (t.failed now s) ∧ Tells t (t.failed now s) := by
  unfold Transfer.failed
  rw [if_neg (by simp [ready.running])]
  cases s with
  | origin => rw [if_pos rfl,if_neg (by simp [calm.mixed])]; exact calm.fail
  | peer p =>
    rw [if_neg (by simp)]
    cases found : t.lanes.get? (.peer p) with
    | none => exact ⟨calm,Tells.refl t⟩
    | some lane =>
      dsimp only
      split_ifs
      · exact ⟨calm,Tells.refl t⟩
      · obtain ⟨retired,none,silent⟩ := calm.retire p
        have same : t.reassign now (.peer p) = (t.retire (.peer p)).1 := by
          unfold reassign
          dsimp only
          rw [none]
          unfold assign
          simp [retired.mixed]
        rw [same,rebalanceOrigin_reached retired.reached]
        exact ⟨retired,[],by simpa using silent,by simp⟩
/-- Past the floor every later call keeps the peers without work and asks no peer for
    anything. -/
theorem Calm.handle (ready : Ready t) (calm : Calm t) {e : Event} (later : e.starts = false) :
    Calm (handle sha256 t e) ∧ Tells t (handle sha256 t e) := by
  cases e with
  | start => cases later
  | startPeerOnly => cases later
  | failed now source => exact calm.failed ready now source
  | progress now source received =>
    have same : t.progress now source received = t := by
      unfold progress
      rw [if_neg (by simp [calm.mixed]),if_pos (.inr calm.reached)]
    show Calm (t.progress now source received) ∧ _
    rw [show RelaySwarm.Transfers.handle sha256 t (.progress now source received) =
      t.progress now source received from rfl,same]
    exact ⟨calm,Tells.refl t⟩
  | tick now =>
    have none : t.watched = [] := by
      unfold watched
      rw [List.filter_eq_nil_iff]
      intro s _
      unfold watchAt
      rw [if_neg (by simp [calm.mixed])]
      cases t.lanes.get? s <;> simp [calm.reached]
    have same : t.tick now = t := by
      unfold tick
      rw [if_neg (by simp [ready.running]),if_neg (by simp [calm.mixed]),if_neg (by simp [calm.reached])]
      show judge now t.watched t = t
      rw [none]
      show (t.endgame now).rebalanceOrigin now = t
      rw [endgame_reached calm.reached,rebalanceOrigin_reached calm.reached]
    rw [show RelaySwarm.Transfers.handle sha256 t (.tick now) = t.tick now from rfl,same]
    exact ⟨calm,Tells.refl t⟩
  | delivered now source range bytes =>
    show Calm (t.delivered sha256 now source range bytes) ∧ Tells t (t.delivered sha256 now source range bytes)
    rcases delivered_cases sha256 ready.running (fun only => by rw [calm.mixed] at only; cases only) source range bytes
      with
      ⟨same,_⟩ | ⟨lane,sent,found,flying,found'⟩
    · rw [same]; exact ⟨calm,Tells.refl t⟩
    cases source with
    | peer p =>
      rw [List.map_eq_nil_iff.mp (List.append_eq_nil_iff.mp (calm.idle p lane found)).1] at flying
      cases flying
    | origin =>
      obtain ⟨_,_,_,silent⟩ := response_lanes sha256 ready.orderly found flying bytes
      have checked : Calm (response sha256 t .origin range bytes).transfer := by
        rw [(response_facts sha256 ready.orderly found flying bytes).1]
        refine ⟨calm.reached,calm.mixed,fun p other here => ?_⟩
        dsimp only at here
        rw [OrderedMap.get?_modify_of_ne _ _ (by simp)] at here
        exact calm.idle p other here
      have tells : ∀ {u}, Tells (response sha256 t .origin range bytes).transfer u → Tells t u := by
        rintro u ⟨cs,same,fine⟩
        exact ⟨cs,by rw [same,silent],fine⟩
      rcases found' with ⟨_,same⟩ | ⟨_,_,same⟩ | ⟨_,_,same⟩
      · rw [same]; exact calm.failed ready now .origin
      · rw [same]; exact ⟨checked.fail.1,tells checked.fail.2⟩
      · rw [same]
        obtain ⟨done,said⟩ := checked.accept sha256 now sent lane.firstByteAt (t.rangeLength range)
        exact ⟨done,tells said⟩
end

/-! ### The tick that reaches the floor -/

theorem Calm.queueOrigin (calm : Calm t) (now : Nat) (range : PieceRange) :
    Calm (t.queueOrigin now range) ∧ Tells t (t.queueOrigin now range) := by
  unfold Transfer.queueOrigin
  rw [if_neg (by simp [calm.mixed])]
  have queued : Calm ((t.openLane now ⟨.origin,none,none⟩).extendQueue .origin [range] id) := by
    refine ⟨calm.reached,calm.mixed,fun p lane found => ?_⟩
    unfold extendQueue at found
    dsimp only at found
    rw [OrderedMap.get?_modify_of_ne _ _ (by simp),openLane_get,if_neg (by simp)] at found
    exact calm.idle p lane found
  exact ⟨queued.issue now,issue_tells _ now⟩
theorem Calm.queueOrigins (now : Nat) (ranges : List PieceRange) : ∀ {t : Transfer}, Calm t →
    Calm (ranges.foldl (fun t range => t.queueOrigin now range) t) ∧
      Tells t (ranges.foldl (fun t range => t.queueOrigin now range) t) := by
  induction ranges with
  | nil => intro t calm; exact ⟨calm,Tells.refl t⟩
  | cons range rest ih =>
    intro t calm
    obtain ⟨first,said⟩ := calm.queueOrigin now range
    obtain ⟨last,more⟩ := ih first
    exact ⟨last,said.trans more⟩
/-- Cancelling lanes one after another leaves them without work and tells each peer
    once. -/
theorem cancelLanes_takes (peers : List Nat) : ∀ (t : Transfer) (pieces : List Nat),
    let t' := ((peers.map Source.peer).foldl cancelLane (t,pieces)).1
    t'.floorReached = t.floorReached ∧ t'.peerOnly = t.peerOnly ∧
      t'.commands = t.commands ++ peers.map Command.cancel ∧
      ∀ s lane, t'.lanes.get? s = some lane → lane.work = [] ∨
        (t.lanes.get? s = some lane ∧ ∀ p ∈ peers, s ≠ .peer p) := by
  induction peers with
  | nil => intro t pieces; exact ⟨rfl,rfl,by simp,fun s lane found => .inr ⟨found,by simp⟩⟩
  | cons p rest ih =>
    intro t pieces
    obtain ⟨lanes,same⟩ := retire_frame (t.push (.cancel p)) (.peer p)
    obtain ⟨floor,mode,said,kept⟩ := ih ((t.push (.cancel p)).retire (.peer p)).1
      (pieces ++ ((t.push (.cancel p)).retire (.peer p)).2)
    refine ⟨floor.trans (by rw [same]; rfl),mode.trans (by rw [same]; rfl),said.trans (by rw [same]; simp [push]),
      fun s lane found => ?_⟩
    rcases kept s lane found with empty | ⟨before,others⟩
    · exact .inl empty
    rcases retire_cases (t.push (.cancel p)) (.peer p) with ⟨none,unchanged⟩ | ⟨mine,_,after,_⟩
    · rw [unchanged] at before
      refine .inr ⟨before,fun q member => ?_⟩
      rcases List.mem_cons.mp member with rfl | later
      · rintro rfl
        rw [none] at before
        cases before
      · exact others q later
    · rw [after] at before
      dsimp only at before
      rw [OrderedMap.get?_modify] at before
      split_ifs at before with own
      · obtain ⟨_,_,rfl⟩ := Option.map_eq_some_iff.mp before
        exact .inl rfl
      · refine .inr ⟨before,fun q member => ?_⟩
        rcases List.mem_cons.mp member with rfl | later
        · exact own
        · exact others q later
theorem lateLanes_peers (orderly : Orderly t) : ∃ peers : List Nat, t.lateLanes = peers.map .peer ∧ peers.Nodup ∧
    ∀ p, p ∈ peers ↔ ∃ lane, t.lanes.get? (.peer p) = some lane ∧ lane.work ≠ [] := by
  have named : ∀ sources : List Source, (∀ s ∈ sources, s.isPeer = true) → ∃ peers :
      List Nat, sources = peers.map .peer := by
    intro sources
    induction sources with
    | nil => intro _; exact ⟨[],rfl⟩
    | cons s rest ih =>
      intro each
      obtain ⟨peers,same⟩ := ih (fun s' member => each s' (by simp [member]))
      cases s with
      | origin => exact absurd (each .origin (by simp)) (by simp [Source.isPeer])
      | peer p => exact ⟨p :: peers,by simp [same]⟩
  obtain ⟨peers,same⟩ := named t.lateLanes (fun s => lateLanes_peer)
  refine ⟨peers,same,List.Nodup.of_map _ (same ▸ lateLanes_nodup t),fun p => ?_⟩
  have idle : ∀ lane : Lane, lane.idle ↔ lane.work = [] := by
    intro lane
    simp [Lane.idle,Lane.work]
  have member : p ∈ peers ↔ Source.peer p ∈ t.lateLanes := by
    rw [same]
    exact (List.mem_map_of_injective (fun a b => by simp)).symm
  rw [member]
  constructor
  · intro late
    obtain ⟨_,lane,found,_,work⟩ := mem_lateLanes late
    exact ⟨lane,found,fun none => work ((idle lane).mpr none)⟩
  · rintro ⟨lane,found,work⟩
    have use : lane.retired = false := by
      by_contra gone
      exact work (orderly.gone _ lane found (by simpa using gone))
    refine List.mem_map.mpr ⟨(.peer p,lane),List.mem_filter.mpr ⟨mem_livePeers.mpr ⟨found,rfl,use⟩,?_⟩,rfl⟩
    simpa [idle] using work
theorem reachFloor_calm (ready : Ready t) (mixed : t.peerOnly = false) (now : Nat) :
    Calm (t.reachFloor now) ∧ ∃ peers : List Nat, peers.Nodup ∧
      (∀ p, p ∈ peers ↔ ∃ lane, t.lanes.get? (.peer p) = some lane ∧ lane.work ≠ []) ∧
      ∃ cs, (t.reachFloor now).commands = t.commands ++ peers.map .cancel ++ cs ∧ ∀ c ∈ cs, Command.pastFloor c := by
  obtain ⟨peers,late,once,working⟩ := lateLanes_peers ready.orderly
  obtain ⟨floor,mode,said,kept⟩ := cancelLanes_takes peers { t with floorReached := true } []
  unfold reachFloor
  dsimp only
  rw [show ({ t with floorReached := true } : Transfer).lateLanes = peers.map .peer from late]
  generalize ((peers.map Source.peer).foldl cancelLane ({ t with floorReached := true },[])) = taken
    at floor mode said kept ⊢
  have calm : Calm taken.1 := by
    refine ⟨floor,mode.trans mixed,fun p lane found => ?_⟩
    rcases kept _ lane found with empty | ⟨before,others⟩
    · exact empty
    · by_contra work
      exact others p ((working p).mpr ⟨lane,before,work⟩) rfl
  obtain ⟨last,cs,more,fine⟩ := Calm.queueOrigins now
    (runs ((taken.2.filter (fun index => ¬ taken.1.covered index)).insertionSort (· ≤ ·)).dedup) calm
  exact ⟨last,peers,once,working,cs,by rw [more,said],fine⟩

/-! ### Runs past the floor -/

section
variable (sha256 : List UInt8 → Digest)

theorem run_calm (events : List Event) : ∀ {t : Transfer} (told : List Command), Between n t → Calm t →
    t.commands = [] → (∀ e ∈ events, e.starts = false) → Calm (Shell.run sha256 ⟨t,told⟩ events).transfer ∧
      ∃ cs, (Shell.run sha256 ⟨t,told⟩ events).emitted = told ++ cs ∧ ∀ c ∈ cs, Command.pastFloor c := by
  induction events with
  | nil => intro t told _ calm _ _; exact ⟨calm,[],by simp [Shell.run],by simp⟩
  | cons e rest ih =>
    intro t told between calm silent later
    have starts := later e (by simp)
    have next : Between n (handle sha256 t e) ∧ Calm (handle sha256 t e) ∧ Tells t (handle sha256 t e) := by
      rcases between with concluded | rested
      · rw [handle_finished sha256 concluded starts]
        exact ⟨.inl concluded,calm,Tells.refl t⟩
      · obtain ⟨kept,said⟩ := calm.handle sha256 rested.ready starts
        exact ⟨handle_between sha256 rested starts,kept,said⟩
    obtain ⟨between',kept,cs,said,fine⟩ := next
    rw [silent,List.nil_append] at said
    obtain ⟨last,ds,more,fine'⟩ := ih (told ++ (handle sha256 t e).commands) (drained_between between')
      ⟨kept.reached,kept.mixed,kept.idle⟩ rfl (fun e' member => later e' (by simp [member]))
    refine ⟨last,cs ++ ds,more.trans (by rw [said,List.append_assoc]),fun c member => ?_⟩
    exact (List.mem_append.mp member).elim (fine c) (fine' c)
theorem run_uncancelled (newborn : Newborn n t) {first : Event} (begins : Begins t first)
    {events : List Event} (later : ∀ e ∈ events, e.starts = false) {p : Nat} {lane : Lane}
    (found : (after sha256 t (first :: events)).lanes.get? (.peer p) = some lane) (work : lane.work ≠ []) :
    .cancel p ∉ (Shell.run sha256 ⟨t,[]⟩ (first :: events)).emitted := by
  rcases journal_induction sha256 newborn begins (P := Agrees t.terms) (C := fun _ _ => True)
    (fun u opened _ => opened.agrees begins)
    (fun log t' e u rested silent _ agrees enters => agrees.entered rested.ready silent enters)
    (fun log u v ready agrees act => agrees.act act)
    (fun log t' now _ _ _ ready agrees => agrees.endgame ready now) (fun log u agrees => agrees.drained) later
    (fun _ _ _ _ => trivial) with ⟨rested,silent,agrees⟩ | ⟨concluded,_⟩
  · intro told
    rw [journal_emitted,List.nil_append,List.mem_filterMap] at told
    obtain ⟨entry,member,is⟩ := told
    cases entry with
    | call e => cases is
    | told c =>
      cases Option.some.inj is
      obtain ⟨a,b,split⟩ := List.append_of_mem member
      have stopped : (standing t.terms (.peer p) (a ++ [.told (.cancel p)])).stopped = true := by
        rw [standing_stops _ _ _ (.inl rfl),if_pos rfl]
      have still := standing_stopped t.terms (.peer p) stopped b
      rw [List.append_assoc,List.singleton_append,← split] at still
      refine agrees.stopped p (by rw [Transfer.told,silent]; simpa using still) ⟨lane,found,?_⟩
      by_contra gone
      exact work (rested.ready.orderly.gone _ lane found (by simpa using gone))
  · exact absurd (run_over sha256 newborn begins later concluded _ lane found) work
/-- The floor of a mixed transfer, started once: from the tick that reaches it no peer
    has work or is asked for anything, the peers that had work are told once to stop,
    origin has every piece that is not verified until the transfer is over, and what a
    peer still delivers changes nothing. -/
theorem floor_handed_over {config : TransferConfig} {size : Nat} {digest : String} {pieces : List String}
    {deadline : Nat} {t : Transfer} (made : new config size digest pieces deadline = some t ∨
      (new config size digest pieces deadline).bind withExclusiveOrigin = some t)
    {first : Event} (begins : Begins t first) (pre : List Event) (now : Nat) (post : List Event)
    (later : ∀ e ∈ pre ++ .tick now :: post, e.starts = false)
    (before : (after sha256 t (first :: pre)).floorReached = false)
    (reached : (after sha256 t (first :: (pre ++ [.tick now]))).floorReached = true) :
    let atFloor := after sha256 t (first :: pre)
    (∀ mid rest, post = mid ++ rest → let u := after sha256 t (first :: (pre ++ .tick now :: mid))
      (∀ p lane, u.lanes.get? (.peer p) = some lane → lane.work = []) ∧
      (u.finished = false → ∀ i < u.verified.length, u.isVerified i = false →
        ∃ lane, u.lanes.get? .origin = some lane ∧ lane.holds i) ∧
      ∀ later p range bytes, handle sha256 u (.delivered later (.peer p) range bytes) = u) ∧
    (∀ c ∈ (Shell.run sha256 ⟨atFloor,[]⟩ (.tick now :: post)).emitted, ∀ p range, c ≠ .request p range) ∧
    ∀ p lane, atFloor.lanes.get? (.peer p) = some lane → lane.work ≠ [] →
      (Shell.run sha256 ⟨t,[]⟩ (first :: (pre ++ .tick now :: post))).emitted.count (.cancel p) = 1 := by
  have newborn : Newborn pieces.length t ∧ t.peerOnly = false := by
    rcases made with plain | exclusive
    · exact ⟨(new_newborn plain).1,(new_newborn plain).2.1⟩
    · exact ⟨(exclusive_newborn exclusive).1,(exclusive_newborn exclusive).2.1⟩
  obtain ⟨newborn,mixed⟩ := newborn
  have early : ∀ e ∈ pre, e.starts = false := fun e member => later e (by simp [member])
  have state := after_concat sha256 t (first :: pre) (.tick now)
  rw [List.cons_append] at state
  rw [state] at reached
  have mode := (Ground.mode (run_ground sha256 newborn begins early)).trans mixed
  have silent := run_silent sha256 t first pre
  rcases run_between sha256 newborn begins early with concluded | rested
  · rw [handle_finished sha256 concluded rfl] at reached
    change (after sha256 t (first :: pre)).floorReached = true at reached
    rw [before] at reached
    cases reached
  -- The tick takes the peers out; the rest of the run is calm.
  obtain ⟨_,ticks⟩ := tick_reaches rested.ready mode before reached
  obtain ⟨calm,peers,once,working,cs,said,fine⟩ := reachFloor_calm rested.ready mode now
  rw [← ticks] at calm said
  rw [silent,List.nil_append] at said
  have between : Between pieces.length (handle sha256 (after sha256 t (first :: pre)) (.tick now)).drainCommands.2 :=
    drained_between (handle_between sha256 rested rfl)
  have calm' : Calm (handle sha256 (after sha256 t (first :: pre)) (.tick now)).drainCommands.2 :=
    ⟨calm.reached,calm.mixed,calm.idle⟩
  have onward : ∀ mid rest, post = mid ++ rest → Calm (after sha256 t (first :: (pre ++ .tick now :: mid))) ∧
      ∀ told, ∃ ds, (Shell.run sha256 ⟨after sha256 t (first :: pre),told⟩ (.tick now :: mid)).emitted =
        told ++ (peers.map Command.cancel ++ cs) ++ ds ∧ ∀ c ∈ ds, Command.pastFloor c := by
    intro mid rest split
    have calls : ∀ e ∈ mid, e.starts = false := fun e member => later e (by simp [split,member])
    refine ⟨?_,fun told => ?_⟩
    · have last := (run_calm sha256 mid [] between calm' rfl calls).1
      have same : after sha256 t (first :: (pre ++ .tick now :: mid)) =
          after sha256 (handle sha256 (after sha256 t (first :: pre)) (.tick now)).drainCommands.2 mid := by
        rw [← after_cons]
        unfold after
        rw [← List.cons_append,run_append]
        exact run_transfer sha256 _ _ _ _
      rw [same]
      exact last
    · obtain ⟨_,ds,more,fine'⟩ := run_calm sha256 mid (told ++ (peers.map Command.cancel ++ cs)) between calm' rfl calls
      refine ⟨ds,?_,fine'⟩
      rw [← more]
      show (Shell.run sha256 ⟨_,told ++ (Transfer.tick _ now).commands⟩ mid).emitted = _
      rw [said]
  refine ⟨fun mid rest split => ?_,?_,fun p lane found work => ?_⟩
  · have still := (onward mid rest split).1
    have calls : ∀ e ∈ pre ++ .tick now :: mid, e.starts = false := fun e member => later e (by
      rw [split]
      simp only [List.mem_append,List.mem_cons] at member ⊢
      tauto)
    have whole := run_between sha256 newborn begins calls
    refine ⟨still.idle,fun running i inside fresh => ?_,fun here p range bytes => ?_⟩
    · rcases whole with concluded | rested'
      · rw [running] at concluded
        cases concluded
      rcases covered_iff.mp ((rested'.covered still.mixed).covers i inside) with verified | ⟨s,lane,found,held⟩
      · rw [fresh] at verified
        cases verified
      · cases s with
        | origin => exact ⟨lane,found,held⟩
        | peer p =>
          obtain ⟨_,range,member,_⟩ := held
          rw [still.idle p lane found] at member
          cases member
    · rcases whole with concluded | rested'
      · exact handle_finished sha256 concluded rfl
      · rcases delivered_cases sha256 rested'.ready.running (fun only => by rw [still.mixed] at only; cases only)
          (.peer p) range bytes with ⟨same,_⟩ | ⟨lane,sent,found,flying,_⟩
        · exact same
        · rw [List.map_eq_nil_iff.mp (List.append_eq_nil_iff.mp (still.idle p lane found)).1] at flying
          cases flying
  · obtain ⟨ds,more,fine'⟩ := (onward post [] (by simp)).2 []
    rw [more]
    rintro c member p range rfl
    rw [List.nil_append,List.append_assoc,List.mem_append,List.mem_append] at member
    rcases member with cancel | fetch | rest
    · simp at cancel
    · exact fine _ fetch
    · exact fine' _ rest
  · have never := run_uncancelled sha256 newborn begins early found work
    have split : Shell.run sha256 ⟨t,[]⟩ (first :: (pre ++ .tick now :: post)) =
        Shell.run sha256 (Shell.run sha256 ⟨t,[]⟩ (first :: pre)) (.tick now :: post) := by
      rw [← List.cons_append,run_append]
    obtain ⟨ds,more,fine'⟩ := (onward post [] (by simp)).2 (Shell.run sha256 ⟨t,[]⟩ (first :: pre)).emitted
    have none : ∀ {cs : List Command}, (∀ c ∈ cs, Command.pastFloor c) → cs.count (.cancel p) = 0 :=
      fun fine => List.count_eq_zero.mpr (fun member => fine _ member)
    rw [split,more,List.count_append,List.count_append,List.count_append,List.count_eq_zero.mpr never,
      none fine,none fine',List.count_map_of_injective _ _ (fun a b same => by cases same; rfl)]
    simpa using List.count_eq_one_of_mem once ((working p).mpr ⟨lane,found,work⟩)

private def holderAndOrigin : Event := .start 0 [⟨.peer 1,some 5,some 65536⟩] ⟨.origin,some 1000,some 1⟩ none none []
/-- A peer has the only piece when the floor comes: it is cancelled once, and its answer
    comes too late. -/
theorem floor_handed_over_late_answer : ∃ t, new ⟨1,0⟩ 1 zeroDigest [zeroDigest] 1000 = some t ∧
    (Shell.run (fun _ => []) ⟨t,[]⟩ [holderAndOrigin,.tick 1000,.delivered 1001 (.peer 1) ⟨0,1⟩ [0]]).emitted.count
      (.cancel 1) = 1 := by
  obtain ⟨t,made⟩ := Option.isSome_iff_exists.mp
    (by decide +kernel : (new ⟨1,0⟩ 1 zeroDigest [zeroDigest] 1000).isSome = true)
  have before : (new ⟨1,0⟩ 1 zeroDigest [zeroDigest] 1000).map (fun t =>
      (after (fun _ => []) t [holderAndOrigin]).floorReached) = some false := by decide +kernel
  have reached : (new ⟨1,0⟩ 1 zeroDigest [zeroDigest] 1000).map (fun t =>
      (after (fun _ => []) t [holderAndOrigin,.tick 1000]).floorReached) = some true := by decide +kernel
  have work : (new ⟨1,0⟩ 1 zeroDigest [zeroDigest] 1000).map (fun t =>
      ((after (fun _ => []) t [holderAndOrigin]).lanes.get? (.peer 1)).map (·.work)) =
        some (some [⟨0,1⟩]) := by decide +kernel
  rw [made] at before reached work
  obtain ⟨lane,found,working⟩ := Option.map_eq_some_iff.mp (Option.some.inj work)
  exact ⟨t,made,(floor_handed_over (fun _ => []) (.inl made) (.start (fun _ => rfl)) [] 1000
    [.delivered 1001 (.peer 1) ⟨0,1⟩ [0]] (by simp [Event.starts]) (Option.some.inj before)
      (Option.some.inj reached)).2.2
      1 lane found (by rw [working]; simp)⟩
/-- Past the floor, a transfer whose origin fails is over with its piece on no lane; and
    one that is started again asks a peer. -/
theorem floor_failed_or_restarted : ∃ t, new ⟨1,0⟩ 1 zeroDigest [zeroDigest] 1000 = some t ∧
    (let u := after (fun _ => []) t [holderAndOrigin,.tick 1000,.failed 1001 .origin]
    u.floorReached = true ∧ u.isVerified 0 = false ∧
      ¬ ∃ lane, u.lanes.get? .origin = some lane ∧ ∃ range ∈ lane.work, 0 ∈ range.indices) ∧
    (after (fun _ => []) t [holderAndOrigin,.tick 1000]).floorReached = true ∧
    .request 2 ⟨0,1⟩ ∈ (Shell.run (fun _ => []) ⟨after (fun _ => []) t [holderAndOrigin,.tick 1000],[]⟩
      [.start 1001 [⟨.peer 2,some 5,some 65536⟩] ⟨.origin,some 1000,some 1⟩ none none [2]]).emitted := by
  obtain ⟨t,made⟩ := Option.isSome_iff_exists.mp
    (by decide +kernel : (new ⟨1,0⟩ 1 zeroDigest [zeroDigest] 1000).isSome = true)
  have failed : (new ⟨1,0⟩ 1 zeroDigest [zeroDigest] 1000).map (fun t =>
      let u := after (fun _ => []) t [holderAndOrigin,.tick 1000,.failed 1001 .origin]
    (u.floorReached,u.isVerified 0,(u.lanes.get? .origin).map (·.work))) = some (true,false,some []) := by
    decide +kernel
  have restarted : (new ⟨1,0⟩ 1 zeroDigest [zeroDigest] 1000).map (fun t =>
      ((after (fun _ => []) t [holderAndOrigin,.tick 1000]).floorReached,
        (Shell.run (fun _ => []) ⟨after (fun _ => []) t [holderAndOrigin,.tick 1000],[]⟩
          [.start 1001 [⟨.peer 2,some 5,some 65536⟩] ⟨.origin,some 1000,some 1⟩ none none [2]]).emitted)) =
            some (true,[.request 2 ⟨0,1⟩]) := by
    decide +kernel
  rw [made] at failed restarted
  have failed := Option.some.inj failed
  have restarted := Option.some.inj restarted
  simp only [Prod.mk.injEq] at failed restarted
  obtain ⟨reached,fresh,lanes⟩ := failed
  refine ⟨t,made,⟨reached,fresh,?_⟩,restarted.1,by rw [restarted.2]; simp⟩
  rintro ⟨lane,found,range,member,_⟩
  rw [found] at lanes
  have none : lane.work = [] := Option.some.inj lanes
  rw [none] at member
  cases member
end
end Transfer
end RelaySwarm.Transfers
