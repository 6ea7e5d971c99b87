import RelaySwarm.TransferCoverage

/-!
The lanes of a peer-only transfer. Its pending pieces lie inside the object and
it has no lane for origin (`Tidy`); a refill gives pending pieces to lanes in use
and fails only when the floor has come or no lane is left
(`refillPeerOnly_cases`).
-/
namespace RelaySwarm.Transfers
open Pieces Planning
namespace Transfer

variable {t : Transfer} {s : Source}
/-- The source has a lane in use. -/
def InUse (t : Transfer) (s : Source) : Prop := ∃ lane, t.lanes.get? s = some lane ∧ lane.retired = false
theorem InUse.live (used : InUse t s) : Live t s := by
  obtain ⟨lane,found,use⟩ := used
  exact live_of_entry found use

/-- The lanes of a peer-only transfer are orderly, none is for origin, and pending
    pieces lie inside the object. -/
structure Tidy (t : Transfer) : Prop where
  orderly : Orderly t
  homeless : t.lanes.get? .origin = none
  pending : ∀ i ∈ t.peerPending, i < t.verified.length
/-- A step of work that keeps the lanes tidy and takes none out of use. -/
structure Stays (t t' : Transfer) : Prop where
  works : Works t t'
  tidy : Tidy t'
  used : ∀ s, InUse t s → InUse t' s

theorem Stays.refl (tidy : Tidy t) : Stays t t := ⟨Works.refl t,tidy,fun _ h => h⟩
theorem Stays.trans {a b c : Transfer} (first : Stays a b) (second : Stays b c) : Stays a c :=
  ⟨first.works.trans second.works,second.tidy,fun s h => second.used s (first.used s h)⟩
theorem Stays.same {t t' : Transfer} (works : Works t t') (lanes : t'.lanes = t.lanes) (tidy : Tidy t)
    (pending : ∀ i ∈ t'.peerPending, i < t.verified.length) : Stays t t' := by
  refine ⟨works,⟨(Loses.same lanes works.verified tidy.orderly).orderly,by rw [lanes]; exact tidy.homeless,?_⟩,?_⟩
  · rw [works.verified]; exact pending
  · intro s; unfold InUse; rw [lanes]; exact fun h => h
theorem Grows.stays {t t' : Transfer} {extra : List Nat} (grows : Grows t t' s extra)
    (works : Works t t') (tidy : Tidy t) (used : InUse t s) (pending : t'.peerPending = t.peerPending) :
    Stays t t' := by
  obtain ⟨lane,found,_⟩ := used
  have other : Source.origin ≠ s := by
    rintro rfl
    rw [tidy.homeless] at found
    cases found
  refine ⟨works,⟨grows.orderly tidy.orderly (live_of_entry found ‹_›),?_,?_⟩,?_⟩
  · rw [grows.others _ other]; exact tidy.homeless
  · rw [pending,works.verified]; exact tidy.pending
  · rintro s' ⟨lane',found',use⟩
    by_cases same : s' = s
    · subst same
      obtain ⟨old,new,before,after,retired,_⟩ := grows.here
      rw [found'] at before
      cases before
      exact ⟨new,after,retired.trans use⟩
    · exact ⟨lane',by rw [grows.others _ same]; exact found',use⟩

theorem issue_pending (t : Transfer) (now : Nat) (s : Source) : (t.issue now s).peerPending = t.peerPending := by
  unfold issue
  cases t.lanes.get? s with
  | none => rfl
  | some lane =>
    dsimp only
    by_cases held : t.exclusiveOrigin ∧ s = .origin ∧ lane.inFlight ≠ []
    · rw [if_pos held]
    · rw [if_neg held]
theorem extend_stays (tidy : Tidy t) (used : InUse t s) (now : Nat)
    {ranges : List PieceRange} (within : Within t.verified.length ranges) (finishAt : ℚ → ℚ) :
    Stays t ((t.extendQueue s ranges finishAt).issue now s) := by
  obtain ⟨lane,found,use⟩ := used
  have grows := extend_grows found now finishAt (tidy.orderly.within _ _ found) within
  exact grows.stays ((extendQueue_works t s ranges finishAt).trans (issue_works _ now s)) tidy ⟨lane,found,use⟩
    (issue_pending _ now s)
theorem extends_stays (now : Nat) (ranges : List PieceRange) : ∀ {t : Transfer}, Tidy t → InUse t s →
    Within t.verified.length ranges →
      Stays t (ranges.foldl (fun t range => (t.extendQueue s [range] id).issue now s) t) := by
  induction ranges with
  | nil => intro t tidy _ _; exact Stays.refl tidy
  | cons range rest ih =>
    intro t tidy used within
    have one := extend_stays tidy used now
      (show Within t.verified.length [range] from fun r member => within r (by simp_all)) id
    exact one.trans (ih one.tidy (one.used s used)
      (fun r member => by rw [one.works.verified]; exact within r (by simp [member])))

/-! ### A refill -/

theorem refillAssignment_stays (tidy : Tidy t) (now : Nat) {a : Assignment} (used : InUse t a.source)
    (within : Within t.verified.length a.ranges) : Stays t (refillAssignment now t a) := by
  obtain ⟨lane,found,use⟩ := used
  have trimmed : Stays t { t with peerPending := t.peerPending.filter (fun index => index ∉ indices a.ranges) } :=
    Stays.same (Works.quiet rfl rfl rfl) rfl tidy (fun i member => tidy.pending i (List.mem_filter.mp member).1)
  have queued := extend_stays trimmed.tidy (trimmed.used _ ⟨lane,found,use⟩) now within (fun _ => projection now a)
  unfold refillAssignment
  rw [found]
  exact trimmed.trans queued
theorem refillAssignments_stays (now : Nat) (assignments : List Assignment) : ∀ {t : Transfer}, Tidy t →
    (∀ a ∈ assignments, InUse t a.source ∧ Within t.verified.length a.ranges) →
      Stays t (assignments.foldl (refillAssignment now) t) := by
  induction assignments with
  | nil => intro t tidy _; exact Stays.refl tidy
  | cons a rest ih =>
    intro t tidy usable
    obtain ⟨used,within⟩ := usable a (by simp)
    have one := refillAssignment_stays tidy now used within
    refine one.trans (ih one.tidy (fun b member => ?_))
    obtain ⟨also,inside⟩ := usable b (by simp [member])
    exact ⟨one.used _ also,by rw [one.works.verified]; exact inside⟩
/-- Idle measured holders take all that is pending, if there are any. -/
theorem refillIdle_cases (orderly : Orderly t) (pending : ∀ i ∈ t.peerPending, i < t.verified.length)
    (now slots : Nat) :
    (t.refillIdle now slots = t ∧ ∀ s lane, t.lanes.get? s = some lane → lane.retired = false → lane.idle →
      s ∉ t.probePeers → (positive lane.estimate.rate).isSome = false) ∨
    ∃ assignments late, t.refillIdle now slots = assignments.foldl (refillAssignment now) { t with late := late } ∧
      dealt assignments = t.peerPending ∧
      ∀ a ∈ assignments, InUse t a.source ∧ a.source ∉ t.probePeers ∧ Within t.verified.length a.ranges := by
  unfold refillIdle
  dsimp only
  set idle := (t.lanes.entries.filter (fun entry => entry.2.retired = false ∧ entry.2.idle ∧
    entry.1 ∉ t.probePeers ∧ (positive entry.2.estimate.rate).isSome)).map (·.2.estimate) with named
  by_cases none : idle = []
  · rw [if_pos none]
    refine .inl ⟨rfl,fun s lane found use rests normal => ?_⟩
    rw [named,List.map_eq_nil_iff,List.filter_eq_nil_iff] at none
    have unrated := none (s,lane) (OrderedMap.mem_entries.mpr found)
    simpa [use,rests,normal] using unrated
  rw [if_neg none]
  generalize shape : PlanInput.mk _ _ _ _ _ _ _ _ = input
  have peers : input.peers = idle := by rw [← shape]
  have needed : input.needed = t.peerPending := by rw [← shape]
  have noOrigin : input.origin = Option.none := by rw [← shape]
  obtain ⟨proper,sources⟩ := plan_proper input
  have pieces := plan_dealt input (.inl (by rw [peers]; exact none))
  rw [needed] at pieces
  have within := within_of_dealt t.verified.length proper (by rw [pieces]; exact pending)
  refine .inr ⟨_,_,rfl,pieces,fun a member => ?_⟩
  rcases sources a member with ⟨e,listed,same⟩ | ⟨e,found,_⟩
  · rw [peers,named] at listed
    obtain ⟨entry,kept,rfl⟩ := List.mem_map.mp listed
    obtain ⟨member',use⟩ := List.mem_filter.mp kept
    simp only [decide_eq_true_eq] at use
    have found := OrderedMap.mem_entries.mp member'
    rw [same,orderly.keyed _ _ found]
    exact ⟨⟨entry.2,found,use.1⟩,use.2.2.1,within a member⟩
  · rw [noOrigin] at found; cases found
theorem refillIdle_stays (tidy : Tidy t) (now slots : Nat) : Stays t (t.refillIdle now slots) := by
  rcases refillIdle_cases tidy.orderly tidy.pending now slots with ⟨same,_⟩ | ⟨assignments,late,same,_,usable⟩
  · rw [same]; exact Stays.refl tidy
  · have marked : Stays t { t with late := late } := Stays.same (Works.quiet rfl rfl rfl) rfl tidy tidy.pending
    rw [same]
    refine marked.trans (refillAssignments_stays now _ marked.tidy (fun a member => ?_))
    exact ⟨(usable a member).1,(usable a member).2.2⟩
theorem refillProbe_stays (tidy : Tidy t) (now : Nat) (used : InUse t s) {index : Nat}
    {pending : List Nat} (head : t.peerPending = index :: pending) : Stays t (refillProbe now t s index pending) := by
  have inside := fun i member => tidy.pending i (by rw [head]; exact member)
  have within : Within t.verified.length [⟨index,index+1⟩] := by
    intro r member
    rw [List.mem_singleton] at member
    subst member
    exact ⟨by simp,inside index (by simp)⟩
  have allowed : ∀ late, Stays t { t with
      peerPending := pending, probeAvailable := t.probeAvailable.erase s, late := late } := fun late =>
    Stays.same (Works.quiet rfl rfl rfl) rfl tidy (fun i member => inside i (by simp [member]))
  exact (allowed _).trans (extend_stays (allowed _).tidy ((allowed _).used s used) now within _)
theorem refillProbes_stays (now : Nat) (probes : List Source) : ∀ {t : Transfer}, Tidy t →
    (∀ s ∈ probes, InUse t s) → Stays t (refillProbes now probes t) := by
  induction probes with
  | nil => intro t tidy _; exact Stays.refl tidy
  | cons s rest ih =>
    intro t tidy used
    unfold refillProbes
    cases head : t.peerPending with
    | nil => exact Stays.refl tidy
    | cons index pending =>
      have one := refillProbe_stays tidy now (used s (by simp)) head
      exact one.trans (ih one.tidy (fun s' member => one.used s' (used s' (by simp [member]))))
theorem idleProbes_used (member : s ∈ t.idleProbes) : InUse t s := by
  obtain ⟨entry,kept,rfl⟩ := List.mem_map.mp member
  obtain ⟨listed,use⟩ := List.mem_filter.mp kept
  simp only [decide_eq_true_eq] at use
  exact ⟨entry.2,OrderedMap.mem_entries.mp listed,use.1⟩
/-- A refill of a peer-only transfer that runs keeps it running, or ends it
    because the floor has come or no lane is left. -/
theorem refillPeerOnly_cases (tidy : Tidy t) (now : Nat) :
    Stays t (t.refillPeerOnly now) ∨
    (∃ u, Works t u ∧ t.refillPeerOnly now = u.fail) ∧ (t.floorAt ≤ now ∨ ∀ s, ¬ InUse t s) := by
  unfold refillPeerOnly
  dsimp only
  by_cases early : t.finished = true ∨ t.started = false
  · rw [if_pos early]; exact .inl (Stays.refl tidy)
  rw [if_neg early]
  by_cases floor : t.floorAt ≤ now
  · rw [if_pos floor]
    exact .inr ⟨⟨{ t with floorReached := true },Works.quiet rfl rfl rfl,rfl⟩,.inl floor⟩
  rw [if_neg floor]
  have pruned : Stays t t.prunePending :=
    Stays.same (Works.quiet rfl rfl rfl) rfl tidy (fun i member => tidy.pending i (List.mem_filter.mp member).1)
  by_cases dead : ∀ lane ∈ t.prunePending.lanes.values, lane.retired = true
  · rw [if_pos dead]
    refine .inr ⟨⟨_,pruned.works,rfl⟩,.inr ?_⟩
    rintro s ⟨lane,found,use⟩
    have gone := dead lane (OrderedMap.mem_values.mpr ⟨s,found⟩)
    rw [use] at gone
    cases gone
  rw [if_neg dead]
  split_ifs
  · exact .inl pruned
  · have idle := refillIdle_stays pruned.tidy now t.prunePending.holderSlots
    refine .inl (pruned.trans (idle.trans (refillProbes_stays now _ idle.tidy (fun s member => ?_))))
    exact idleProbes_used (List.mem_of_mem_take member)
theorem pends_stays (needed : List Nat) : ∀ {t : Transfer}, Tidy t → Stays t (needed.foldl pend t) := by
  induction needed with
  | nil => intro t tidy; exact Stays.refl tidy
  | cons i rest ih =>
    intro t tidy
    have one : Stays t (t.pend i) := by
      refine Stays.same (pend_works t i) ?_ tidy ?_
      · unfold pend; split_ifs <;> rfl
      · unfold pend
        split_ifs with fits
        · intro j member
          rcases (List.mem_orderedInsert _).mp member with rfl | old
          · exact fits.1
          · exact tidy.pending j old
        · exact tidy.pending
    exact one.trans (ih one.tidy)
theorem assign_peerOnly (only : t.peerOnly = true) (tidy : Tidy t) (now : Nat)
    (needed : List Nat) : Stays t (t.assign now needed) ∨
      (∃ u, Works t u ∧ t.assign now needed = u.fail) ∧ (t.floorAt ≤ now ∨ ∀ s, ¬ InUse t s) := by
  unfold assign
  rw [if_pos only]
  have pended := pends_stays needed tidy
  rcases refillPeerOnly_cases pended.tidy now with stays | ⟨⟨u,works,same⟩,why⟩
  · exact .inl (pended.trans stays)
  · refine .inr ⟨⟨u,pended.works.trans works,same⟩,why.imp ?_ ?_⟩
    · rw [pended.works.floorAt]; exact id
    · exact fun none s used => none s (pended.used s used)

/-! ### Retiring lanes -/

theorem retire_tidy (tidy : Tidy t) (s : Source) :
    Tidy (t.retire s).1 ∧ ∀ s', s' ≠ s → InUse t s' → InUse (t.retire s).1 s' := by
  rcases retire_cases t s with ⟨_,same⟩ | ⟨lane,found,after,_⟩
  · rw [same]; exact ⟨tidy,fun _ _ h => h⟩
  have peer : s.isPeer = true := by
    cases s with
    | peer => rfl
    | origin => rw [tidy.homeless] at found; cases found
  have others : ∀ s', s' ≠ s → (t.retire s).1.lanes.get? s' = t.lanes.get? s' := by
    intro s' differs
    rw [after]
    exact OrderedMap.get?_modify_of_ne _ _ differs
  refine ⟨⟨(retire_loses tidy.orderly peer).1.orderly,?_,?_⟩,?_⟩
  · rw [others _ (by rintro rfl; cases peer)]; exact tidy.homeless
  · rw [after]; exact tidy.pending
  · rintro s' differs ⟨other,here,use⟩
    exact ⟨other,by rw [others s' differs]; exact here,use⟩
/-- Taking a lane out of a peer-only transfer that runs: the transfer goes on with
    every other lane, or ends because the floor has come or no lane is left. -/
theorem reassign_peerOnly (only : t.peerOnly = true) (tidy : Tidy t) (now : Nat)
    (s : Source) :
    (Works t (t.reassign now s) ∧ Tidy (t.reassign now s) ∧
      ∀ s', s' ≠ s → InUse t s' → InUse (t.reassign now s) s') ∨
    (∃ u, Works t u ∧ t.reassign now s = u.fail) ∧ (t.floorAt ≤ now ∨ ∀ s', s' ≠ s → ¬ InUse t s') := by
  obtain ⟨kept,others⟩ := retire_tidy tidy s
  have works := retire_works t s
  unfold reassign
  dsimp only
  rcases assign_peerOnly (works.peerOnly.trans only) kept now
    ((t.retire s).2.filter (fun index => ¬ (t.retire s).1.covered index)) with stays | ⟨⟨u,more,same⟩,why⟩
  · exact .inl ⟨works.trans stays.works,stays.tidy,fun s' differs used => stays.used s' (others s' differs used)⟩
  · refine .inr ⟨⟨u,works.trans more,same⟩,why.imp ?_ ?_⟩
    · rw [works.floorAt]; exact id
    · exact fun none s' differs used => none s' (others s' differs used)

end Transfer
end RelaySwarm.Transfers
