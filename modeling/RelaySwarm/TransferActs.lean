import RelaySwarm.TransferEnding
import Mathlib.Logic.Relation

/-!
What work on the lanes of a transfer can do, said once. Every hand-out, refill,
retirement and rebalance is a run of acts (`Act`): a lane is given unverified
pieces it does not hold, a probe takes its one piece, a lane sends from its queue,
origin yields queued pieces (`Give`), or a peer is told to stop and retired. An
invariant of the lanes is then a short case analysis over acts. The endgame and the check of a
response are no acts: they are where a lane may be given a piece again, and where
pieces become verified and probes end.
-/
namespace RelaySwarm.Transfers
open Pieces Planning

variable {t t' : Transfer} {s : Source} {lane : Lane}
/-- What of a lane says which pieces it has and whether it is in use. -/
def Lane.post (lane : Lane) : List (PieceRange × Nat) × List PieceRange × Bool × Source :=
  (lane.inFlight,lane.queue,lane.retired,lane.estimate.source)
theorem Lane.post_eq {a b : Lane} (same : a.post = b.post) : a.inFlight = b.inFlight ∧ a.queue = b.queue ∧
    a.retired = b.retired ∧ a.estimate.source = b.estimate.source := by
  simpa [Lane.post] using same
theorem Lane.post_work {a b : Lane} (same : a.post = b.post) : a.work = b.work := by
  obtain ⟨flight,queue,_⟩ := Lane.post_eq same
  simp [Lane.work,flight,queue]

/-- The command tells a peer to stop. -/
def Command.stops (p : Nat) (c : Command) : Prop := c = .cancel p ∨ c = .abandon p ∨ c = .ban p
theorem Command.stops_plain {p : Nat} {c : Command} (stops : c.stops p) : c.ends = false := by
  rcases stops with rfl | rfl | rfl <;> rfl

namespace Transfer

/-- A change of notes: times, estimates, projections and pending pieces, but no
    lane's work and no allowance. -/
structure Quiet (t t' : Transfer) : Prop where
  fixed : t'.fixed = t.fixed
  finished : t'.finished = t.finished
  commands : t'.commands = t.commands
  probePeers : t'.probePeers = t.probePeers
  probeAvailable : t'.probeAvailable = t.probeAvailable
  lanes : ∀ s, (t'.lanes.get? s).map Lane.post = (t.lanes.get? s).map Lane.post
  pending : ∀ i ∈ t'.peerPending, i ∈ t.peerPending ∨ i < t.verified.length
  distinct : t.peerPending.Nodup → t'.peerPending.Nodup
  floor : t.floorReached = true → t'.floorReached = true

/-- Ranges that may be given to a lane: proper, no piece twice, none verified, none
    on the lane already, and with an exclusive origin none on any lane. -/
structure Fit (t : Transfer) (lane : Lane) (ranges : List PieceRange) : Prop where
  within : Within t.verified.length ranges
  once : (indices ranges).Nodup
  fresh : ∀ i ∈ indices ranges, t.isVerified i = false
  unheld : ∀ i ∈ indices ranges, i ∉ indices lane.work
  alone : t.exclusiveOrigin = true → ∀ i ∈ indices ranges, ∀ s other, t.lanes.get? s = some other →
    i ∉ indices other.work

inductive Give (t : Transfer) : Transfer → Prop
  | notes {t' : Transfer} (quiet : Quiet t t') : Give t t'
  | gives {s : Source} {lane : Lane} (found : t.lanes.get? s = some lane) (use : lane.retired = false) (now : Nat)
      {ranges : List PieceRange} (fit : Fit t lane ranges) (finishAt : ℚ → ℚ) (unprobed : s ∉ t.probePeers) :
      Give t ((t.extendQueue s ranges finishAt).issue now s)
  | tries {s : Source} {lane : Lane} (found : t.lanes.get? s = some lane) (use : lane.retired = false) (now : Nat)
      {i : Nat} (fit : Fit t lane [⟨i,i+1⟩]) (finishAt : ℚ → ℚ) (allowed : s ∈ t.probeAvailable) :
      Give t { (t.extendQueue s [⟨i,i+1⟩] finishAt).issue now s with probeAvailable := t.probeAvailable.erase s }
  | issues {s : Source} {lane : Lane} (found : t.lanes.get? s = some lane) (use : lane.retired = false) (now : Nat) :
      Give t (t.issue now s)
  | yields (claimed : List Nat) : Give t (t.claimOrigin claimed)
abbrev Gives : Transfer → Transfer → Prop := Relation.ReflTransGen Give
/-- The ranges in flight from a source. -/
def flight (t : Transfer) (s : Source) : List PieceRange :=
  ((t.lanes.get? s).map (fun lane => lane.inFlight.map (·.1))).getD []
/-- One act on the lanes. Only a request in flight is cancelled. -/
inductive Act (t : Transfer) : Transfer → Prop
  | give {t' : Transfer} (given : Give t t') : Act t t'
  | retires {p : Nat} {command : Command} (stops : command.stops p)
      (flying : command = .cancel p → t.flight (.peer p) ≠ []) : Act t ((t.push command).retire (.peer p)).1
abbrev Acts : Transfer → Transfer → Prop := Relation.ReflTransGen Act
theorem Gives.acts (gives : Gives t t') : Acts t t' :=
  Relation.ReflTransGen.mono (fun _ _ => Act.give) _ _ gives

theorem Quiet.verified (quiet : Quiet t t') : t'.verified = t.verified :=
  congrArg Fixed.verified quiet.fixed
theorem Quiet.works (quiet : Quiet t t') : Works t t' :=
  Works.quiet quiet.fixed quiet.finished quiet.commands
theorem Quiet.before (quiet : Quiet t t') {lane' : Lane}
    (found : t'.lanes.get? s = some lane') : ∃ lane, t.lanes.get? s = some lane ∧ lane.post = lane'.post := by
  have same := quiet.lanes s
  rw [found] at same
  exact Option.map_eq_some_iff.mp same.symm
theorem Quiet.after (quiet : Quiet t t')
    (found : t.lanes.get? s = some lane) : ∃ lane', t'.lanes.get? s = some lane' ∧ lane'.post = lane.post := by
  have same := quiet.lanes s
  rw [found] at same
  exact Option.map_eq_some_iff.mp same
theorem Quiet.same (fixed : t'.fixed = t.fixed) (finished : t'.finished = t.finished)
    (commands : t'.commands = t.commands) (probePeers : t'.probePeers = t.probePeers)
    (probeAvailable : t'.probeAvailable = t.probeAvailable) (lanes : t'.lanes = t.lanes)
    (pending : t'.peerPending = t.peerPending) (floor : t.floorReached = true → t'.floorReached = true) : Quiet t t' :=
  ⟨fixed,finished,commands,probePeers,probeAvailable,fun s => by rw [lanes],fun _ h => .inl (pending ▸ h),
    fun h => pending ▸ h,floor⟩
theorem Quiet.refl (t : Transfer) : Quiet t t := Quiet.same rfl rfl rfl rfl rfl rfl rfl id
theorem Quiet.modify (t : Transfer) (s : Source) {f : Lane → Lane} (post : ∀ lane, (f lane).post = lane.post) :
    Quiet t { t with lanes := t.lanes.modify s f } := by
  refine ⟨rfl,rfl,rfl,rfl,rfl,fun s' => ?_,fun _ h => .inl h,id,id⟩
  dsimp only
  rw [OrderedMap.get?_modify]
  split_ifs
  · rw [Option.map_map]
    exact congrArg (fun g => Option.map g _) (funext post)
  · rfl

theorem Give.works (given : Give t t') : Works t t' := by
  cases given with
  | notes quiet => exact quiet.works
  | gives => exact (extendQueue_works ..).trans (issue_works ..)
  | @tries s _ _ _ now i _ finishAt _ =>
    have works := (extendQueue_works t s [⟨i,i+1⟩] finishAt).trans (issue_works _ now s)
    exact ⟨works.fixed,works.finished,works.told⟩
  | issues found use now => exact issue_works t now _
  | yields claimed => exact claimOrigin_works t claimed
theorem Act.works (act : Act t t') : Works t t' := by
  cases act with
  | give given => exact given.works
  | retires stops => exact (push_works t (Command.stops_plain stops)).trans (retire_works _ _)
theorem Gives.works (gives : Gives t t') : Works t t' := by
  induction gives with
  | refl => exact Works.refl t
  | tail _ given ih => exact ih.trans given.works
theorem Acts.works (acts : Acts t t') : Works t t' := by
  induction acts with
  | refl => exact Works.refl t
  | tail _ act ih => exact ih.trans act.works

/-! ### States in which work goes on -/

/-- Every piece is held at most once by one lane. -/
def Single (t : Transfer) : Prop := ∀ s lane, t.lanes.get? s = some lane → (indices lane.work).Nodup
/-- No piece is held by two lanes. -/
def Apart (t : Transfer) : Prop := ∀ s s' lane lane', s ≠ s' → t.lanes.get? s = some lane →
  t.lanes.get? s' = some lane' → ∀ i ∈ indices lane.work, i ∉ indices lane'.work

/-- A running transfer between two calls, or between two acts of one call. -/
structure Ready (t : Transfer) : Prop where
  running : t.finished = false
  orderly : Orderly t
  homed : t.peerOnly = false → Homed t
  homeless : t.peerOnly = true → t.lanes.get? .origin = none
  pending : ∀ i ∈ t.peerPending, i < t.verified.length
  distinct : t.peerPending.Nodup
  unprobed : t.peerOnly = false → Source.origin ∉ t.probePeers
  owned : t.exclusiveOrigin = true → Single t ∧ Apart t

theorem Ready.tidy (ready : Ready t) (only : t.peerOnly = true) : Tidy t :=
  ⟨ready.orderly,ready.homeless only,ready.pending⟩

section
variable {t t' : Transfer} {s : Source} {extra : List Nat}

theorem Grows.single (grows : Grows t t' s extra) (single : Single t) (once : extra.Nodup)
    (unheld : ∀ lane, t.lanes.get? s = some lane → ∀ i ∈ extra, i ∉ indices lane.work) : Single t' := by
  obtain ⟨lane,lane',found,found',_,_,pieces,_⟩ := grows.here
  intro s' other lies
  by_cases same : s' = s
  · subst same
    rw [found'] at lies
    cases lies
    rw [pieces,List.nodup_append']
    exact ⟨single s' lane found,once,fun i held new => unheld lane found i new held⟩
  · rw [grows.others s' same] at lies
    exact single s' other lies
theorem Grows.apart (grows : Grows t t' s extra) (apart : Apart t)
    (alone : ∀ i ∈ extra, ∀ s other, t.lanes.get? s = some other → i ∉ indices other.work) : Apart t' := by
  obtain ⟨lane,lane',found,found',_,_,pieces,_⟩ := grows.here
  have one : ∀ s' other, s' ≠ s → t.lanes.get? s' = some other → ∀ i ∈ indices lane'.work, i ∉ indices other.work := by
    intro s' other differs lies i member
    rw [pieces] at member
    rcases List.mem_append.mp member with old | new
    · exact apart s s' lane other (Ne.symm differs) found lies i old
    · exact alone i new s' other lies
  intro a b la lb differs fa fb i member
  by_cases sa : a = s
  · subst sa
    rw [found'] at fa
    cases fa
    rw [grows.others b (Ne.symm differs)] at fb
    exact one b lb (Ne.symm differs) fb i member
  · rw [grows.others a sa] at fa
    by_cases sb : b = s
    · subst sb
      rw [found'] at fb
      cases fb
      exact fun held => one a la sa fa i held member
    · rw [grows.others b sb] at fb
      exact apart a b la lb differs fa fb i member
theorem Grows.ready (grows : Grows t t' s extra) (works : Works t t') (ready : Ready t) (live : Live t s)
    (pending : t'.peerPending = t.peerPending) (probePeers : t'.probePeers = t.probePeers)
    (owned : t.exclusiveOrigin = true → Single t' ∧ Apart t') : Ready t' := by
  have kept := grows.keeps ready.orderly live
  refine ⟨works.finished.trans ready.running,kept.orderly,?_,?_,?_,pending ▸ ready.distinct,?_,?_⟩
  · rw [works.peerOnly]; exact fun mixed => kept.homed (ready.homed mixed)
  · intro only
    rw [works.peerOnly] at only
    have none := ready.homeless only
    rw [grows.others _ ?_]
    · exact none
    · rintro rfl
      obtain ⟨lane,_,found,_⟩ := grows.here
      rw [none] at found
      cases found
  · rw [pending,works.verified]; exact ready.pending
  · rw [works.peerOnly,probePeers]; exact ready.unprobed
  · rw [works.exclusive]; exact owned

theorem Grows.marked (grows : Grows t t' s extra) (marks : Finset Source) :
    Grows t { t' with probeAvailable := marks } s extra := ⟨grows.others,grows.here,grows.verified⟩
/-- Lanes are left with a part of their pieces. -/
def Thins (t t' : Transfer) : Prop := ∀ s lane', t'.lanes.get? s = some lane' → ∃ lane, t.lanes.get? s = some lane ∧
  (indices lane'.work).Sublist (indices lane.work)
theorem Thins.single (thins : Thins t t') (single : Single t) : Single t' := by
  intro s lane' found
  obtain ⟨lane,old,fewer⟩ := thins s lane' found
  exact fewer.nodup (single s lane old)
theorem Thins.apart (thins : Thins t t') (apart : Apart t) : Apart t' := by
  intro a b la lb differs fa fb i member held
  obtain ⟨oa,foundA,fewerA⟩ := thins a la fa
  obtain ⟨ob,foundB,fewerB⟩ := thins b lb fb
  exact apart a b oa ob differs foundA foundB i (fewerA.subset member) (fewerB.subset held)
theorem Quiet.thins (quiet : Quiet t t') : Thins t t' := by
  intro s lane' found
  obtain ⟨lane,old,post⟩ := quiet.before found
  exact ⟨lane,old,by rw [Lane.post_work post]⟩
theorem claimOrigin_thins (t : Transfer) (claimed : List Nat) : Thins t (t.claimOrigin claimed) := by
  intro s lane' found
  rw [claimOrigin,OrderedMap.get?_modify] at found
  split_ifs at found
  · obtain ⟨lane,old,rfl⟩ := Option.map_eq_some_iff.mp found
    refine ⟨lane,old,?_⟩
    rw [Lane.work,Lane.work,indices_append,indices_append,indices_runs]
    exact List.Sublist.append_left List.filter_sublist _
  · exact ⟨lane',found,List.Sublist.refl _⟩
theorem retire_thins (t : Transfer) (s : Source) : Thins t (t.retire s).1 := by
  rcases retire_cases t s with ⟨_,same⟩ | ⟨_,_,after,_⟩
  · rw [same]; exact fun s lane found => ⟨lane,found,List.Sublist.refl _⟩
  intro s' lane' found
  rw [after] at found
  dsimp only at found
  rw [OrderedMap.get?_modify] at found
  split_ifs at found
  · obtain ⟨lane,old,rfl⟩ := Option.map_eq_some_iff.mp found
    exact ⟨lane,old,by simp [Lane.work]⟩
  · exact ⟨lane',found,List.Sublist.refl _⟩

end

theorem issue_frame (t : Transfer) (now : Nat) (s : Source) : ∃ origin lanes commands,
    t.issue now s = { t with originStarted := origin, lanes := lanes, commands := commands } := by
  unfold issue
  cases t.lanes.get? s with
  | none => exact ⟨_,_,_,rfl⟩
  | some lane =>
    dsimp only
    by_cases held : t.exclusiveOrigin ∧ s = .origin ∧ lane.inFlight ≠ []
    · rw [if_pos held]; exact ⟨_,_,_,rfl⟩
    · rw [if_neg held]; exact ⟨_,_,_,rfl⟩
theorem issue_probePeers (t : Transfer) (now : Nat) (s : Source) : (t.issue now s).probePeers = t.probePeers := by
  obtain ⟨_,_,_,same⟩ := issue_frame t now s
  rw [same]
theorem issue_probeAvailable (t : Transfer) (now : Nat) (s : Source) :
    (t.issue now s).probeAvailable = t.probeAvailable := by
  obtain ⟨_,_,_,same⟩ := issue_frame t now s
  rw [same]
theorem retire_frame (t : Transfer) (s : Source) : ∃ lanes, (t.retire s).1 = { t with lanes := lanes } := by
  unfold retire
  cases t.lanes.get? s <;> exact ⟨_,rfl⟩
theorem Give.floor (given : Give t t') (reached : t.floorReached = true) : t'.floorReached = true := by
  cases given with
  | notes quiet => exact quiet.floor reached
  | @gives s _ _ _ now ranges _ finishAt _ =>
    obtain ⟨_,_,_,same⟩ := issue_frame (t.extendQueue s ranges finishAt) now s
    rw [same]
    exact reached
  | @tries s _ _ _ now i _ finishAt _ =>
    obtain ⟨_,_,_,same⟩ := issue_frame (t.extendQueue s [⟨i,i+1⟩] finishAt) now s
    rw [same]
    exact reached
  | @issues s _ _ _ now =>
    obtain ⟨_,_,_,same⟩ := issue_frame t now s
    rw [same]
    exact reached
  | yields => exact reached
theorem Act.floor (act : Act t t') (reached : t.floorReached = true) : t'.floorReached = true := by
  cases act with
  | give given => exact given.floor reached
  | @retires p command _ _ =>
    obtain ⟨_,same⟩ := retire_frame (t.push command) (.peer p)
    rw [same]
    exact reached
theorem Acts.floor (acts : Acts t t') (reached : t.floorReached = true) : t'.floorReached = true := by
  induction acts with
  | refl => exact reached
  | tail _ act ih => exact act.floor ih

/-! ### What is in flight -/

theorem flight_found (found : t.lanes.get? s = some lane) :
    t.flight s = lane.inFlight.map (·.1) := by
  simp [flight,found]
theorem flight_modify (t : Transfer) (s s' : Source) {f : Lane → Lane}
    (kept : ∀ lane, (f lane).inFlight = lane.inFlight) :
    ({ t with lanes := t.lanes.modify s f } : Transfer).flight s' = t.flight s' := by
  simp only [flight]
  rw [OrderedMap.get?_modify]
  split_ifs
  · rw [Option.map_map]
    exact congrArg (fun g => (Option.map g (t.lanes.get? s')).getD []) (funext fun lane => by simp [kept lane])
  · rfl
theorem extendQueue_flight (t : Transfer) (s s' : Source) (ranges : List PieceRange) (finishAt : ℚ → ℚ) :
    (t.extendQueue s ranges finishAt).flight s' = t.flight s' := flight_modify t s s' (fun _ => rfl)
theorem Lane.sending_flight (lane : Lane) (now : Nat) (sent left : List PieceRange) :
    (lane.sending now sent left).inFlight.map (·.1) = lane.inFlight.map (·.1) ++ sent := by
  unfold Lane.sending
  dsimp only
  split_ifs <;> simp [Function.comp_def]
theorem issue_sends (t : Transfer) (now : Nat) (s : Source) : ∃ sent : List PieceRange,
    (∀ s', (t.issue now s).flight s' = if s' = s then t.flight s ++ sent else t.flight s') ∧
      (t.issue now s).commands = t.commands ++ sent.map (requestOf s) := by
  have nothing : ∃ sent : List PieceRange, (∀ s', t.flight s' = if s' = s then t.flight s ++ sent else t.flight s') ∧
      t.commands = t.commands ++ sent.map (requestOf s) :=
    ⟨[],fun s' => by split_ifs with own <;> simp [own],by simp⟩
  unfold issue
  cases found : t.lanes.get? s with
  | none => exact nothing
  | some lane =>
    dsimp only
    split_ifs
    · exact nothing
    all_goals
      refine ⟨_,fun s' => ?_,rfl⟩
      simp only [flight]
      rw [OrderedMap.get?_modify]
      split_ifs with own
      · subst own
        rw [found]
        exact Lane.sending_flight ..
      · rfl
theorem Quiet.flight (quiet : Quiet t t') (s : Source) : t'.flight s = t.flight s := by
  cases found : t'.lanes.get? s with
  | some lane' =>
    obtain ⟨lane,old,post⟩ := quiet.before found
    rw [flight_found found,flight_found old,(Lane.post_eq post).1]
  | none =>
    have same := quiet.lanes s
    rw [found] at same
    simp only [Transfer.flight,found,Option.map_eq_none_iff.mp same.symm,Option.map_none]
theorem Give.flight (given : Give t t') (s : Source) : t.flight s <+: t'.flight s := by
  have issued : ∀ {u : Transfer} (now : Nat) (s' : Source), u.flight s <+: (u.issue now s').flight s := by
    intro u now s'
    obtain ⟨sent,same,_⟩ := issue_sends u now s'
    rw [same s]
    split_ifs with own
    · subst own; exact List.prefix_append _ _
    · exact List.prefix_rfl
  cases given with
  | notes quiet => rw [quiet.flight]
  | @gives s' _ _ _ now ranges _ finishAt _ =>
    have same := issued (u := t.extendQueue s' ranges finishAt) now s'
    rwa [extendQueue_flight] at same
  | @tries s' _ _ _ now i _ finishAt _ =>
    have same := issued (u := t.extendQueue s' [⟨i,i+1⟩] finishAt) now s'
    rwa [extendQueue_flight] at same
  | issues _ _ now => exact issued now _
  | yields claimed =>
    rw [show (t.claimOrigin claimed).flight s = t.flight s from flight_modify t .origin s (fun _ => rfl)]
theorem Gives.flight (gives : Gives t t') (s : Source) : t.flight s <+: t'.flight s := by
  induction gives with
  | refl => exact List.prefix_rfl
  | tail _ given ih => exact ih.trans (given.flight s)
theorem retire_flight (t : Transfer) (s s' : Source) :
    (t.retire s).1.flight s' = if s' = s then [] else t.flight s' := by
  unfold retire
  cases found : t.lanes.get? s with
  | none =>
    dsimp only
    split_ifs with own
    · simp [Transfer.flight,own,found]
    · rfl
  | some lane =>
    simp only [Transfer.flight]
    rw [OrderedMap.get?_modify]
    split_ifs with own
    · subst own
      rw [found]
      rfl
    · rfl

theorem Fit.grows {t : Transfer} (orderly : Orderly t) {s : Source} {lane : Lane}
    (found : t.lanes.get? s = some lane) {ranges : List PieceRange} (fit : Fit t lane ranges) (now : Nat)
    (finishAt : ℚ → ℚ) : Grows t ((t.extendQueue s ranges finishAt).issue now s) s (indices ranges) :=
  extend_grows found now finishAt (orderly.within _ _ found) fit.within
theorem Fit.owned (found : t.lanes.get? s = some lane)
    {ranges : List PieceRange} (fit : Fit t lane ranges) (grows : Grows t t' s (indices ranges)) (ready : Ready t)
    (exclusive : t.exclusiveOrigin = true) : Single t' ∧ Apart t' := by
  obtain ⟨single,apart⟩ := ready.owned exclusive
  refine ⟨grows.single single fit.once ?_,grows.apart apart (fit.alone exclusive)⟩
  intro other here i member
  rw [found] at here
  cases here
  exact fit.unheld i member

theorem push_ready (ready : Ready t) (command : Command) : Ready (t.push command) :=
  ⟨ready.running,(push_keeps ready.orderly command).orderly,ready.homed,ready.homeless,ready.pending,ready.distinct,
    ready.unprobed,ready.owned⟩
theorem retire_ready (ready : Ready t) (p : Nat) : Ready (t.retire (.peer p)).1 := by
  obtain ⟨loses,_,_⟩ := retire_loses ready.orderly (s := .peer p) rfl
  have works := retire_works t (.peer p)
  have thins := retire_thins t (.peer p)
  have kept : (t.retire (.peer p)).1.peerPending = t.peerPending ∧
      (t.retire (.peer p)).1.probePeers = t.probePeers := by
    unfold retire
    cases t.lanes.get? (.peer p) <;> exact ⟨rfl,rfl⟩
  refine ⟨works.finished.trans ready.running,loses.orderly,?_,?_,?_,by rw [kept.1]; exact ready.distinct,?_,?_⟩
  · rw [works.peerOnly]; exact fun mixed => loses.homed (ready.homed mixed)
  · rw [works.peerOnly]
    intro only
    rcases retire_cases t (.peer p) with ⟨_,same⟩ | ⟨_,_,after,_⟩
    · rw [same]; exact ready.homeless only
    · rw [after]
      dsimp only
      rw [OrderedMap.get?_modify_of_ne _ _ (by simp)]
      exact ready.homeless only
  · rw [kept.1,works.verified]; exact ready.pending
  · rw [works.peerOnly,kept.2]; exact ready.unprobed
  · rw [works.exclusive]
    intro exclusive
    obtain ⟨single,apart⟩ := ready.owned exclusive
    exact ⟨thins.single single,thins.apart apart⟩
theorem Give.ready (given : Give t t') (ready : Ready t) : Ready t' := by
  have works := given.works
  cases given with
  | notes quiet =>
    have verified := quiet.verified
    refine ⟨works.finished.trans ready.running,⟨?_,?_,?_⟩,?_,?_,?_,quiet.distinct ready.distinct,?_,?_⟩
    · intro s lane' found
      obtain ⟨lane,old,post⟩ := quiet.before found
      rw [verified,← Lane.post_work post]
      exact ready.orderly.within s lane old
    · intro s lane' found gone
      obtain ⟨lane,old,post⟩ := quiet.before found
      rw [← Lane.post_work post]
      exact ready.orderly.gone s lane old ((Lane.post_eq post).2.2.1.trans gone)
    · intro s lane' found
      obtain ⟨lane,old,post⟩ := quiet.before found
      exact (Lane.post_eq post).2.2.2.symm.trans (ready.orderly.keyed s lane old)
    · rw [works.peerOnly]
      intro mixed
      obtain ⟨lane,found,use⟩ := ready.homed mixed
      obtain ⟨lane',found',post⟩ := quiet.after found
      exact ⟨lane',found',(Lane.post_eq post).2.2.1.trans use⟩
    · rw [works.peerOnly]
      intro only
      have same := quiet.lanes .origin
      rw [ready.homeless only] at same
      exact Option.map_eq_none_iff.mp same
    · rw [verified]
      exact fun i member => (quiet.pending i member).elim (ready.pending i) id
    · rw [works.peerOnly,quiet.probePeers]; exact ready.unprobed
    · rw [works.exclusive]
      intro exclusive
      obtain ⟨single,apart⟩ := ready.owned exclusive
      exact ⟨quiet.thins.single single,quiet.thins.apart apart⟩
  | gives found use now fit finishAt unprobed =>
    have grows := fit.grows ready.orderly found now finishAt
    exact grows.ready works ready (live_of_entry found use) (issue_pending _ now _) (issue_probePeers _ now _)
      (fit.owned found grows ready)
  | @tries s _ found use now _ fit finishAt allowed =>
    have grows := fit.grows ready.orderly found now finishAt
    have marked := grows.marked (t.probeAvailable.erase s)
    exact marked.ready works ready (live_of_entry found use) (issue_pending _ now _) (issue_probePeers _ now _)
      (fit.owned found marked ready)
  | issues found use now =>
    have grows := issue_grows found now (ready.orderly.within _ _ found)
    refine grows.ready works ready (live_of_entry found use) (issue_pending _ now _) (issue_probePeers _ now _) ?_
    intro exclusive
    obtain ⟨single,apart⟩ := ready.owned exclusive
    exact ⟨grows.single single List.nodup_nil (by simp),grows.apart apart (by simp)⟩
  | yields claimed =>
    obtain ⟨loses,others⟩ := claimOrigin_loses ready.orderly claimed
    refine ⟨ready.running,loses.orderly,fun mixed => loses.homed (ready.homed mixed),?_,ready.pending,ready.distinct,
      ready.unprobed,?_⟩
    · intro only
      have none := ready.homeless only
      rw [claimOrigin,OrderedMap.get?_modify_self,none]
      rfl
    · intro exclusive
      obtain ⟨single,apart⟩ := ready.owned exclusive
      exact ⟨(claimOrigin_thins t claimed).single single,(claimOrigin_thins t claimed).apart apart⟩
theorem Act.ready (act : Act t t') (ready : Ready t) : Ready t' := by
  cases act with
  | give given => exact given.ready ready
  | @retires p command => exact retire_ready (push_ready ready command) p
theorem endProbe_ready (ready : Ready t) (s : Source) : Ready (t.endProbe s) :=
  ⟨ready.running,⟨ready.orderly.within,ready.orderly.gone,ready.orderly.keyed⟩,ready.homed,ready.homeless,
    ready.pending,ready.distinct,fun mixed member => ready.unprobed mixed (Finset.mem_of_mem_erase member),ready.owned⟩
theorem Gives.ready (gives : Gives t t') (ready : Ready t) : Ready t' := by
  induction gives with
  | refl => exact ready
  | tail _ given ih => exact given.ready ih
theorem Acts.ready (acts : Acts t t') (ready : Ready t) : Ready t' := by
  induction acts with
  | refl => exact ready
  | tail _ act ih => exact act.ready ih

end Transfer
end RelaySwarm.Transfers
