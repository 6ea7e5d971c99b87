import RelaySwarm.TransferRefill

/-!
The law of a peer-only transfer. While it runs, every missing piece is with a live lane
or pending, and some lane has a request in flight: a step keeps the lanes and the
pending pieces together (`Loose`), and the refill that ends it leaves no holder idle
that could work (`Armed`). The exception is a response with a bad piece that verifies
the one piece of another probe, which then stays idle (`Strands`). Such a transfer asks
peers only, and it gives up exactly when it must (`Doomed`).
-/
namespace RelaySwarm.Transfers
open Pieces Planning

variable {p sent now n : Nat} {lane : Lane} {range : PieceRange} {e : Event}
/-- The command asks a peer, or stops one that it does not abandon. -/
def Command.toPeer : Command → Bool
  | .request .. => true
  | .cancel _ => true
  | .ban _ => true
  | _ => false

namespace Transfer

/-! ### What is said -/

/-- A step that says nothing but to peers. -/
def Speaks (t t' : Transfer) : Prop := ∃ cs, t'.commands = t.commands ++ cs ∧ ∀ c ∈ cs, c.toPeer = true
theorem Speaks.refl (t : Transfer) : Speaks t t := ⟨[],by simp,by simp⟩
theorem Speaks.trans {a b c : Transfer} (first : Speaks a b) (second : Speaks b c) : Speaks a c := by
  obtain ⟨cs,told,plain⟩ := first
  obtain ⟨ds,told',plain'⟩ := second
  refine ⟨cs ++ ds,by rw [told',told,List.append_assoc],fun c member => ?_⟩
  exact (List.mem_append.mp member).elim (plain c) (plain' c)
theorem Speaks.silent {t t' : Transfer} (same : t'.commands = t.commands) : Speaks t t' :=
  ⟨[],by simpa using same,by simp⟩
theorem push_speaks (t : Transfer) {command : Command} (plain : command.toPeer = true) : Speaks t (t.push command) :=
  ⟨[command],rfl,by simpa using plain⟩
theorem retire_speaks (t : Transfer) (s : Source) : Speaks t (t.retire s).1 := by
  obtain ⟨_,same⟩ := retire_frame t s
  rw [same]
  exact Speaks.silent rfl
theorem issue_speaks (t : Transfer) (now p : Nat) : Speaks t (t.issue now (.peer p)) := by
  obtain ⟨sent,_,told⟩ := issue_sends t now (.peer p)
  refine ⟨_,told,fun c member => ?_⟩
  obtain ⟨range,_,rfl⟩ := List.mem_map.mp member
  rfl
theorem Give.speaks {t t' : Transfer} (given : Give t t') (homeless : t.lanes.get? .origin = none) : Speaks t t' := by
  have peers : ∀ {u : Transfer} {s : Source} {lane : Lane} (now : Nat), t.lanes.get? s = some lane →
      u.commands = t.commands → Speaks t (u.issue now s) := by
    intro u s lane now found same
    cases s with
    | origin => rw [homeless] at found; cases found
    | peer p => exact (Speaks.silent same).trans (issue_speaks u now p)
  cases given with
  | notes quiet => exact Speaks.silent quiet.commands
  | gives found _ now _ _ _ => exact peers now found rfl
  | @tries s _ found _ now i _ finishAt _ =>
    exact (@peers (t.extendQueue s [⟨i,i+1⟩] finishAt) s _ now found rfl).trans (Speaks.silent rfl)
  | issues found _ now => exact peers now found rfl
  | yields => exact Speaks.silent rfl
theorem Gives.speaks {t t' : Transfer} (gives : Gives t t') (ready : Ready t) (only : t.peerOnly = true) :
    Speaks t t' := by
  induction gives with
  | refl => exact Speaks.refl t
  | tail first given ih =>
    have part : Gives t _ := first
    exact ih.trans (given.speaks ((part.ready ready).homeless (part.acts.peerOnly.trans only)))
theorem fail_told {t u : Transfer} (speaks : Speaks t u) : ∃ cs, u.fail.commands = t.commands ++ cs ++ [.fail] ∧
    ∀ c ∈ cs, c.toPeer = true := by
  obtain ⟨cs,told,plain⟩ := speaks
  refine ⟨cs ++ u.cancels,by simp [fail,push,closeOut,told],fun c member => ?_⟩
  rcases List.mem_append.mp member with before | stopped
  · exact plain c before
  · obtain ⟨⟨s,lane⟩,_,told⟩ := List.mem_filterMap.mp stopped
    cases s with
    | origin => cases told
    | peer p =>
      dsimp only at told
      split_ifs at told
      cases told
      rfl

/-! ### Between two refills -/

/-- A peer-only transfer in the middle of a call; `fair` says that its probes were given
    their chance, those excepted are to be dropped. -/
structure Loose (fair : Prop) (except : List Source) (t : Transfer) : Prop where
  ready : Ready t
  only : t.peerOnly = true
  begun : t.started = true
  known : Known t
  tried : fair → Tried t except
/-- A peer-only transfer after a refill. -/
structure Armed (fair : Prop) (except : List Source) (t : Transfer) : Prop where
  loose : Loose fair except t
  placed : Placed t
  bare : Bare t
  keen : Keen t
  used : ∃ s, InUse t s
/-- A transfer that gives up, because the floor has come or no lane is in use. -/
def Drops (now : Nat) (t t' : Transfer) : Prop :=
  ∃ u, Gives t u ∧ Rated t u ∧ t' = u.fail ∧ (t.floorAt ≤ now ∨ ∀ s, ¬ InUse t s)

variable {fair : Prop} {except : List Source} {t t' : Transfer}

theorem Loose.gives (loose : Loose fair except t) (gives : Gives t t') (rated : Rated t t') : Loose fair except t' where
  ready := gives.ready loose.ready
  only := gives.acts.peerOnly.trans loose.only
  begun := (congrArg Fixed.started gives.acts.works.fixed).trans loose.begun
  known := rated.known loose.known
  tried := fun given => gives.tried loose.ready (loose.tried given)
theorem Loose.told (loose : Loose fair except t) (command : Command) : Loose fair except (t.push command) :=
  ⟨push_ready loose.ready command,loose.only,loose.begun,loose.known,loose.tried⟩
theorem Tried.wider {more : List Source} (tried : Tried t except) (within : ∀ s ∈ except, s ∈ more) : Tried t more :=
  fun p lane found use spent => (tried p lane found use spent).imp (within _) id
theorem Loose.retired (loose : Loose fair (.peer p :: except) t) : Loose fair except (t.retire (.peer p)).1 where
  ready := retire_ready loose.ready p
  only := (retire_works t _).peerOnly.trans loose.only
  begun := (congrArg Fixed.started (retire_works t _).fixed).trans loose.begun
  known := (retire_rated t _).known loose.known
  tried := by
    intro given q lane' found use spent
    have works := retire_works t (.peer p)
    obtain ⟨lanes,frame⟩ := retire_frame t (.peer p)
    have spent' : t.Spent (.peer q) := by rw [frame] at spent; exact spent
    rcases retire_cases t (.peer p) with ⟨none,same⟩ | ⟨lane,here,same,_⟩
    · rw [same] at found
      have other : q ≠ p := by
        rintro rfl
        rw [none] at found
        cases found
      refine (loose.tried given q lane' found use spent').imp (fun listed => ?_) ?_
      · exact (List.mem_cons.mp listed).resolve_left (fun own => other (by cases own; rfl))
      · exact fun owes => by rw [same]; exact owes
    · rw [same] at found
      dsimp only at found
      rw [OrderedMap.get?_modify] at found
      split_ifs at found with own
      · obtain ⟨_,_,rfl⟩ := Option.map_eq_some_iff.mp found
        cases use
      · refine (loose.tried given q lane' found use spent').imp (fun listed => ?_) ?_
        · exact (List.mem_cons.mp listed).resolve_left own
        · rintro ⟨i,member,missing⟩
          exact ⟨i,member,(works.isVerified i).trans missing⟩
theorem retire_places (orderly : Orderly t) (placed : Placed t) (p : Nat) :
    ∀ i < (t.retire (.peer p)).1.verified.length,
    (t.retire (.peer p)).1.covered i ∨ i ∈ (t.retire (.peer p)).1.peerPending ∨ i ∈ (t.retire (.peer p)).2 := by
  intro i inside
  rw [(retire_works t _).verified] at inside
  obtain ⟨lanes,frame⟩ := retire_frame t (.peer p)
  rcases placed i inside with covered | waits
  · exact ((retire_loses orderly rfl).1.covers i covered).imp id .inr
  · exact .inr (.inl (by rw [frame]; exact waits))
theorem assign_armed (loose : Loose fair except t) (now : Nat) (needed : List Nat)
    (places : ∀ i < t.verified.length, t.covered i ∨ i ∈ t.peerPending ∨ i ∈ needed) :
    (now < t.floorAt ∧ Gives t (t.assign now needed) ∧ Rated t (t.assign now needed) ∧
      Armed fair except (t.assign now needed)) ∨
      Drops now t (t.assign now needed) := by
  have quiet := pends_quiet needed t
  have gives : Gives t (needed.foldl pend t) := .single (.notes quiet)
  have rated : Rated t (needed.foldl pend t) := Rated.foldl pend_rated needed t
  have pended := loose.gives gives rated
  have same : t.assign now needed = (needed.foldl pend t).refillPeerOnly now := by
    unfold assign
    rw [if_pos loose.only]
  rw [same]
  rcases refillPeerOnly_refilled pended.ready pended.only pended.begun now with refilled | ⟨u,more,rated',concluded,why⟩
  · have loose' := pended.gives refilled.gives refilled.rated
    refine .inl
      ⟨by rw [← quiet.works.floorAt]; exact refilled.early,gives.trans refilled.gives,rated.trans refilled.rated,
      loose',refilled.placed (pends_places needed t places),refilled.bare,refilled.keen pended.known,refilled.used⟩
  · refine .inr ⟨u,gives.trans more,rated.trans rated',concluded,why.imp ?_ ?_⟩
    · rw [quiet.works.floorAt]; exact id
    · exact fun none s used => none s (quiet.inUse.mpr used)
theorem reassign_armed (loose : Loose fair (.peer p :: except) t) (placed : Placed t) (now : Nat) :
    (now < t.floorAt ∧ Gives (t.retire (.peer p)).1 (t.reassign now (.peer p)) ∧ Rated t (t.reassign now (.peer p)) ∧
      Armed fair except (t.reassign now (.peer p))) ∨ Drops now (t.retire (.peer p)).1 (t.reassign now (.peer p)) := by
  have places : ∀ i < (t.retire (.peer p)).1.verified.length, (t.retire (.peer p)).1.covered i ∨
      i ∈ (t.retire (.peer p)).1.peerPending ∨
        i ∈ (t.retire (.peer p)).2.filter (fun i => ¬ (t.retire (.peer p)).1.covered i) := by
    intro i inside
    rcases retire_places loose.ready.orderly placed p i inside with covered | waits | lost
    · exact .inl covered
    · exact .inr (.inl waits)
    · by_cases covered : (t.retire (.peer p)).1.covered i
      · exact .inl covered
      · exact .inr (.inr (List.mem_filter.mpr ⟨lost,by simpa using covered⟩))
  rcases assign_armed loose.retired now _ places with ⟨early,gives,rated,armed⟩ | drops
  · exact .inl ⟨by rw [← (retire_works t (.peer p)).floorAt]; exact early,gives,(retire_rated t _).trans rated,armed⟩
  · exact .inr drops

/-! ### A response -/

theorem dropLanes_loose (now : Nat) {winner : Source} (sources : List Source) : ∀ {t : Transfer},
    (∀ s ∈ sources, s ≠ winner ∧ s.isPeer = true) → Loose fair sources t → Placed t → now < t.floorAt → InUse t winner →
      Loose fair [] (sources.foldl (dropLane now) t) ∧ Placed (sources.foldl (dropLane now) t) ∧
      Speaks t (sources.foldl (dropLane now) t) ∧ Works t (sources.foldl (dropLane now) t) ∧
      InUse (sources.foldl (dropLane now) t) winner := by
  induction sources with
  | nil => intro t _ loose placed _ used; exact ⟨loose,placed,Speaks.refl t,Works.refl t,used⟩
  | cons s rest ih =>
    intro t peers loose placed early used
    obtain ⟨differs,peer⟩ := peers s (by simp)
    cases s with
    | origin => cases peer
    | peer p =>
      have told := loose.told (.cancel p)
      have ready := retire_ready told.ready p
      have others := (retire_tidy (told.ready.tidy told.only) (.peer p)).2 winner (Ne.symm differs) used
      have works := (push_works t (show (Command.cancel p).ends = false from rfl)).trans (retire_works _ (.peer p))
      have said := (push_speaks t (show (Command.cancel p).toPeer = true from rfl)).trans (retire_speaks _ (.peer p))
      rcases reassign_armed told placed now with ⟨_,gives,_,armed⟩ | ⟨u,_,_,_,floor | none⟩
      · have works' : Works t (dropLane now t (.peer p)) := works.trans gives.acts.works
        obtain ⟨loose',placed',said',works2,used'⟩ := ih (t := dropLane now t (.peer p))
          (fun s' member => peers s' (by simp [member])) armed.loose armed.placed
          (by rw [works'.floorAt]; exact early) (gives.inUse ready others)
        exact ⟨loose',placed',(said.trans (gives.speaks ready (works.peerOnly.trans loose.only))).trans said',
          works'.trans works2,used'⟩
      · rw [works.floorAt] at floor
        omega
      · exact absurd others (none winner)
theorem measure_others (t : Transfer) (now : Nat) {s s' : Source} (differs : s' ≠ s) (sent : Nat) (first : Option Nat)
    (bytes : Nat) : (t.measure now s sent first bytes).lanes.get? s' = t.lanes.get? s' := by
  unfold measure
  cases t.lanes.get? s with
  | none => rfl
  | some lane =>
    dsimp only
    split_ifs
    · rfl
    · exact OrderedMap.get?_modify_of_ne _ _ differs
theorem positive_some {rate : ℚ} (more : 0 < rate) : (positive (some rate)).isSome = true := by
  simp [positive,Option.filter_some,more]
theorem measure_rate {t : Transfer} (found : t.lanes.get? (.peer p) = some lane) (now sent : Nat)
    (first : Option Nat) {bytes : Nat} (some : 0 < bytes) : ∃ lane',
      (t.measure now (.peer p) sent first bytes).lanes.get? (.peer p) = .some lane' ∧
        (positive lane'.estimate.rate).isSome = true := by
  unfold measure
  rw [found]
  dsimp only
  by_cases rated : (positive lane.estimate.rate).isSome = true
  · rw [if_pos (.inr rated)]
    exact ⟨lane,found,rated⟩
  · rw [if_neg (by simpa [Source.isPeer] using rated)]
    refine ⟨_,by rw [OrderedMap.get?_modify_self,found]; rfl,?_⟩
    exact positive_some (div_pos (by exact_mod_cast some) (lt_of_lt_of_le one_pos (le_max_right _ _)))

section
variable (sha256 : List UInt8 → Digest)

/-- The pieces have the bytes of the object, each of them some. -/
def Full (t : Transfer) : Prop := 0 < t.pieceSize ∧ ∀ i < t.verified.length, i * t.pieceSize < t.size
theorem rangeLength_pos {t : Transfer} (full : Full t) (proper : range.start < range.stop)
    (inside : range.stop ≤ t.verified.length) : 0 < t.rangeLength range := by
  obtain ⟨size,starts⟩ := full
  have first := starts range.start (by omega)
  have longer : range.start * t.pieceSize < range.stop * t.pieceSize := Nat.mul_lt_mul_of_pos_right proper size
  unfold rangeLength pieceRangeBytes
  dsimp only
  omega
theorem response_stale {t : Transfer} {source : Source} {bytes : List UInt8}
    (stale : (response sha256 t source range bytes).fresh = false) :
    (response sha256 t source range bytes).transfer.verified = t.verified := by
  have kept : ∀ (pieces : List Nat) (c : Checked),
      (pieces.foldl (checkPiece sha256 bytes (t.pieceRangeBytes range).1) c).fresh = false →
      (pieces.foldl (checkPiece sha256 bytes (t.pieceRangeBytes range).1) c).transfer.verified = c.transfer.verified ∧
        c.fresh = false := by
    intro pieces
    induction pieces with
    | nil => exact fun c none => ⟨rfl,none⟩
    | cons i rest ih =>
      intro c none
      obtain ⟨same,one⟩ := ih _ none
      rw [List.foldl_cons,same]
      rcases checkPiece_cases sha256 bytes (t.pieceRangeBytes range).1 c i with ⟨_,same'⟩ | ⟨_,_,same'⟩ | ⟨_,same'⟩
      · rw [same'] at one ⊢
        exact ⟨rfl,one⟩
      · rw [same'] at one
        cases one
      · rw [same'] at one ⊢
        exact ⟨rfl,one⟩
  exact (kept range.indices _ stale).1
theorem answered_keeps {i : Nat} (member : i ∈ indices lane.work) (range : PieceRange) :
    i ∈ range.indices ∨ i ∈ indices (lane.answered range).work := by
  obtain ⟨r,listed,inside⟩ := mem_indices.mp member
  by_cases own : r = range
  · exact .inl (by rw [← own]; exact mem_range_indices.mpr inside)
  · refine .inr (mem_indices.mpr ⟨r,?_,inside⟩)
    rcases List.mem_append.mp listed with flying | queued
    · obtain ⟨⟨r',here⟩,sent,rfl⟩ := List.mem_map.mp flying
      refine List.mem_append_left _ (List.mem_map.mpr ⟨(r',here),?_,rfl⟩)
      exact (List.mem_eraseP_of_neg (by simpa using own)).mpr sent
    · exact List.mem_append_right _ queued
/-- The lane of a response once it is measured: what it had to do but for the range, and a rate. -/
theorem measured_lane {t : Transfer} (orderly : Orderly t) (full : Full t)
    (found : t.lanes.get? (.peer p) = some lane) (flying : (range,sent) ∈ lane.inFlight) (bytes : List UInt8)
    (now moment : Nat) (first : Option Nat) :
    let m := (credited (response sha256 t (.peer p) range bytes) (.peer p)).measure now (.peer p) moment first
      (t.rangeLength range)
    (∀ s, s ≠ .peer p → m.lanes.get? s = t.lanes.get? s) ∧ ∃ lane', m.lanes.get? (.peer p) = some lane' ∧
      lane'.post = (lane.answered range).post ∧ (positive lane'.estimate.rate).isSome = true := by
  obtain ⟨frame,_,proper,inside,_⟩ := response_facts sha256 orderly found flying bytes
  obtain ⟨_,_,same⟩ := credited_frame (response sha256 t (.peer p) range bytes) (.peer p)
  set u := credited (response sha256 t (.peer p) range bytes) (.peer p) with named
  have lanes : u.lanes = t.lanes.modify (.peer p) (fun lane => lane.answered range) := by rw [same,frame]
  have own : u.lanes.get? (.peer p) = some (lane.answered range) := by
    rw [lanes,OrderedMap.get?_modify_self,found]
    rfl
  refine ⟨fun s differs => ?_,?_⟩
  · rw [measure_others u now differs,lanes]
    exact OrderedMap.get?_modify_of_ne _ _ differs
  · obtain ⟨lane',after,rated⟩ := measure_rate own now moment first (rangeLength_pos full proper inside)
    obtain ⟨lane2,before,post⟩ := (measure_quiet u now (.peer p) moment first (t.rangeLength range)).before after
    rw [own] at before
    cases before
    exact ⟨lane',after,post.symm,rated⟩
/-- After an accepted response is measured, only redundant probes can have nothing left to do. -/
theorem measured_loose {fair : Prop} {t : Transfer} (loose : Loose fair [] t) (placed : Placed t) (steady : Steady t)
    (full : Full t) (found : t.lanes.get? (.peer p) = some lane)
    (flying : (range,sent) ∈ lane.inFlight) {bytes : List UInt8}
    (good : (response sha256 t (.peer p) range bytes).bad = false)
    (now moment : Nat) (first : Option Nat) :
    let m := (credited (response sha256 t (.peer p) range bytes) (.peer p)).measure now (.peer p) moment first
      (t.rangeLength range)
    Loose fair (m.redundant (.peer p)) m ∧ Placed m := by
  obtain ⟨others,mine,own,post,rated⟩ :=
    measured_lane sha256 loose.ready.orderly full found flying bytes now moment first
  obtain ⟨frame,length,_,_,grows,same,verified,_⟩ := response_facts sha256 loose.ready.orderly found flying bytes
  obtain ⟨live,there,use⟩ := flying_used loose.ready found flying
  rw [found] at there
  cases there
  have checked := response_ready sha256 loose.ready found flying bytes
  have credit := credited_ready checked (.peer p)
  have stale : (response sha256 t (.peer p) range bytes).fresh = false → _ := response_stale sha256
  set c := response sha256 t (.peer p) range bytes with named
  set u := credited c (.peer p) with credits
  have quiet := measure_quiet u now (.peer p) moment first (t.rangeLength range)
  set m := u.measure now (.peer p) moment first (t.rangeLength range) with measures
  obtain ⟨marks,available,frame'⟩ := credited_frame c (.peer p)
  have shape : m.fixed = c.transfer.fixed := by rw [quiet.fixed,credits,frame']; rfl
  have done : ∀ i, m.isVerified i = c.transfer.isVerified i := fun i => verified_same (congrArg Fixed.verified shape)
  have waiting : m.peerPending = t.peerPending := by
    have kept : m.peerPending = u.peerPending := by
      rw [measures]
      unfold measure
      cases u.lanes.get? (.peer p) with
      | none => rfl
      | some other =>
        dsimp only
        split_ifs <;> rfl
    rw [kept,credits,frame',frame]
  -- what became of the probe marks
  have probes : ∀ s, s ≠ .peer p ∨ c.fresh = false → (s ∈ m.probePeers ↔ s ∈ t.probePeers) ∧
      (m.Spent s → t.Spent s) := by
    intro s other
    unfold Spent
    rw [quiet.probePeers,quiet.probeAvailable,credits]
    unfold credited
    rw [frame]
    split_ifs with fresh
    · have differs := other.resolve_right (by simp [fresh])
      simp only [endProbe,Finset.mem_erase,ne_eq,differs,not_false_iff,true_and]
      exact id
    · exact ⟨Iff.rfl,id⟩
  refine ⟨⟨Give.ready (.notes quiet) credit,?_,?_,?_,?_⟩,?_⟩
  · exact (congrArg Fixed.peerOnly shape).trans (by rw [frame]; exact loose.only)
  · exact (congrArg Fixed.started shape).trans (by rw [frame]; exact loose.begun)
  · intro s lane' there use'
    by_cases same : s = .peer p
    · subst same
      rw [own] at there
      cases there
      exact .inr rated
    · rw [others s same] at there
      rw [(probes s (.inl same)).1]
      exact loose.known s lane' there use'
  · intro given q lane' there use' spent
    by_cases same' : (.peer q : Source) = .peer p
    · cases same'
      rw [own] at there
      cases there
      have old : c.fresh = false := by
        by_contra fresh
        have marked := spent.1
        rw [quiet.probePeers,credits,credited,if_pos (by simpa using fresh)] at marked
        exact absurd rfl (Finset.mem_erase.mp marked).1
      obtain ⟨i,member,missing⟩ :=
        (loose.tried given p lane found use ((probes _ (.inr old)).2 spent)).resolve_left (by simp)
      have still : c.transfer.isVerified i = false := (verified_same (stale old)).trans missing
      refine .inr ⟨i,?_,(done i).trans still⟩
      rw [Lane.post_work post]
      refine (answered_keeps member range).resolve_left (fun inside => ?_)
      rw [verified good i inside] at still
      cases still
    · rw [others _ same'] at there
      by_cases owes : ∃ i ∈ indices lane'.work, m.isVerified i = false
      · exact .inr owes
      · refine .inl (List.mem_map.mpr ⟨(.peer q,lane'),
          List.mem_filter.mpr ⟨?_,decide_eq_true ⟨same',rfl,use',?_,?_⟩⟩,rfl⟩)
        · exact OrderedMap.mem_entries.mpr (by rw [others _ same']; exact there)
        · obtain ⟨i,member,_⟩ :=
            (loose.tried given q lane' there use' ((probes _ (.inl same')).2 spent)).resolve_left (by simp)
          intro none
          have queue : lane'.queue = [] := by
            by_contra some
            exact steady _ lane' there some none
          rw [Lane.work,none,queue] at member
          cases member
        · intro sent' flying' i inside
          by_contra missing
          refine owes ⟨i,mem_indices.mpr ⟨sent'.1,List.mem_append_left _ (List.mem_map.mpr ⟨sent',flying',rfl⟩),?_⟩,
            by simpa using missing⟩
          exact mem_range_indices.mp inside
  · intro i inside
    rw [(show m.verified = c.transfer.verified from congrArg Fixed.verified shape),length] at inside
    rcases placed i inside with covered | waits
    · refine .inl (covered_iff.mpr ?_)
      rw [done i]
      rcases covered_iff.mp covered with old | ⟨s,lane',there,holds⟩
      · exact .inl (grows i old)
      · by_cases same' : s = .peer p
        · subst same'
          rw [found] at there
          cases there
          rcases answered_keeps (Lane.holds_iff.mp holds).2 range with taken | kept
          · exact .inl (verified good i taken)
          · refine .inr ⟨.peer p,mine,own,Lane.holds_iff.mpr ⟨(Lane.post_eq post).2.2.1.trans use,?_⟩⟩
            rw [Lane.post_work post]
            exact kept
        · exact .inr ⟨s,lane',by rw [others s same']; exact there,holds⟩
    · exact .inr (by rw [waiting]; exact waits)

/-! ### What a call comes to -/

/-- The transfer goes on with its pieces placed and its holders at work, or it gives up
    because the floor has come or no lane is left. -/
def Settles (fair : Prop) (now : Nat) (t t' : Transfer) : Prop :=
  (now < t.floorAt ∧ Speaks t t' ∧ Works t t' ∧ Armed fair [] t') ∨
    ∃ u, Speaks t u ∧ Works t u ∧ u.lanes.get? .origin = none ∧ t' = u.fail ∧ (t.floorAt ≤ now ∨ ∀ s, ¬ InUse u s)

theorem Settles.after {fair : Prop} {t u t' : Transfer} (speaks : Speaks t u) (works : Works t u)
    (settles : Settles fair now u t') : Settles fair now t t' := by
  unfold Settles at *
  rw [works.floorAt] at settles
  rcases settles with ⟨early,said,more,armed⟩ | ⟨v,said,more,homeless,concluded,why⟩
  · exact .inl ⟨early,speaks.trans said,works.trans more,armed⟩
  · exact .inr ⟨v,speaks.trans said,works.trans more,homeless,concluded,why⟩
theorem Drops.settles {fair : Prop} {t t' : Transfer} (drops : Drops now t t') (ready : Ready t)
    (only : t.peerOnly = true) : Settles fair now t t' := by
  obtain ⟨u,gives,rated,concluded,why⟩ := drops
  exact .inr ⟨u,gives.speaks ready only,gives.acts.works,
    (gives.ready ready).homeless (gives.acts.peerOnly.trans only),concluded,
    why.imp id (fun none s used => none s (rated.inUse used))⟩
theorem assign_settles {fair : Prop} {t : Transfer} (loose : Loose fair [] t) (now : Nat) (needed : List Nat)
    (places : ∀ i < t.verified.length, t.covered i ∨ i ∈ t.peerPending ∨ i ∈ needed) :
    Settles fair now t (t.assign now needed) := by
  rcases assign_armed loose now needed places with ⟨early,gives,_,armed⟩ | drops
  · exact .inl ⟨early,gives.speaks loose.ready loose.only,gives.acts.works,armed⟩
  · exact drops.settles loose.ready loose.only
theorem failed_settles {fair : Prop} {t : Transfer} (loose : Loose fair [] t) (placed : Placed t)
    (used : InUse t (.peer p)) (now : Nat) : Settles fair now t (t.failed now (.peer p)) := by
  obtain ⟨lane,found,use⟩ := used
  have owed : Loose fair [.peer p] t :=
    ⟨loose.ready,loose.only,loose.begun,loose.known,fun given => (loose.tried given).wider (by simp)⟩
  have same : t.failed now (.peer p) = (t.reassign now (.peer p)).rebalanceOrigin now := by
    unfold failed
    rw [if_neg (by simp [loose.ready.running]),if_neg (by simp),found]
    dsimp only
    rw [if_neg (by simp [use])]
  rw [same]
  refine Settles.after (retire_speaks t (.peer p)) (retire_works t (.peer p)) ?_
  rcases reassign_armed owed placed now with ⟨early,gives,_,armed⟩ | drops
  · rw [rebalanceOrigin_over (.inr (armed.loose.ready.homeless armed.loose.only))]
    refine .inl ⟨by rw [(retire_works t (.peer p)).floorAt]; exact early,?_,gives.acts.works,armed⟩
    exact gives.speaks (retire_ready loose.ready p) owed.retired.only
  · have concluded : (t.reassign now (.peer p)).finished = true := by
      obtain ⟨u,_,_,concluded,_⟩ := drops
      rw [concluded]
      rfl
    rw [rebalanceOrigin_over (.inl concluded)]
    exact drops.settles owed.retired.ready owed.retired.only

/-- A response to a range in flight, of its length and before the floor. -/
def Answering (t : Transfer) (now : Nat) (source : Source) (range : PieceRange) (bytes : List UInt8) : Prop :=
  now < t.floorAt ∧ range ∈ t.flight source ∧ bytes.length = t.rangeLength range
/-- A response with a bad piece whose good pieces are all that another probe has to do. -/
def Strands (t : Transfer) : Event → Prop
  | .delivered now source range bytes => t.Answering now source range bytes ∧
      (response sha256 t source range bytes).bad = true ∧
      ∃ p lane, t.lanes.get? (.peer p) = some lane ∧ .peer p ≠ source ∧ lane.retired = false ∧ t.Spent (.peer p) ∧
        ∀ i ∈ indices lane.work, (response sha256 t source range bytes).transfer.isVerified i = true
  | _ => False

/-- A peer sent a bad piece: it is banned, and all that nothing covers is assigned. -/
theorem badPiece_settles {fair : Prop} {t : Transfer} (loose : Loose fair [] t)
    (found : t.lanes.get? (.peer p) = some lane) (flying : (range,sent) ∈ lane.inFlight) {bytes : List UInt8}
    (early : now < t.floorAt) (whole : bytes.length = t.rangeLength range)
    (bad : (response sha256 t (.peer p) range bytes).bad = true) :
    Settles (fair ∧ ¬ Strands sha256 t (.delivered now (.peer p) range bytes)) now
      (response sha256 t (.peer p) range bytes).transfer
      ((response sha256 t (.peer p) range bytes).transfer.badPiece now (.peer p)) := by
  obtain ⟨frame,_⟩ := response_facts sha256 loose.ready.orderly found flying bytes
  have ready := response_ready sha256 loose.ready found flying bytes
  have asked : range ∈ t.flight (.peer p) := by
    rw [flight_found found]
    exact List.mem_map.mpr ⟨(range,sent),flying,rfl⟩
  have strands : ∀ q lane', t.lanes.get? (.peer q) = some lane' → q ≠ p → lane'.retired = false → t.Spent (.peer q) →
      (∀ i ∈ indices lane'.work, (response sha256 t (.peer p) range bytes).transfer.isVerified i = true) →
      Strands sha256 t (.delivered now (.peer p) range bytes) :=
    fun q lane' here differs use spent done =>
      ⟨⟨early,asked,whole⟩,bad,q,lane',here,fun own => differs (by cases own; rfl),use,spent,done⟩
  set c := response sha256 t (.peer p) range bytes with named
  have rated : Rated t c.transfer := by
    rw [frame]
    exact (Rated.modify t (.peer p) (f := fun lane => lane.answered range) (fun _ => rfl) (fun _ => id)).trans
      (Rated.same rfl rfl)
  have told := push_ready ready (.ban p)
  have works := (push_works c.transfer (show (Command.ban p).ends = false from rfl)).trans (retire_works _ (.peer p))
  have loose' : Loose (fair ∧ ¬ Strands sha256 t (.delivered now (.peer p) range bytes)) []
      ((c.transfer.push (.ban p)).retire (.peer p)).1 := by
    refine ⟨retire_ready told p,works.peerOnly.trans ?_,(congrArg Fixed.started works.fixed).trans ?_,?_,?_⟩
    · rw [frame]
      exact loose.only
    · rw [show c.transfer.fixed.started = c.transfer.started from rfl,frame]
      exact loose.begun
    · exact (retire_rated _ _).known ((Rated.same rfl rfl : Rated c.transfer (c.transfer.push (.ban p))).known
        (rated.known loose.known))
    · rintro ⟨_,fairly⟩ q lane' here use spent
      obtain ⟨lanes,frame'⟩ := retire_frame (c.transfer.push (.ban p)) (.peer p)
      have spent' : t.Spent (.peer q) := by
        rw [frame',push,frame] at spent
        exact spent
      refine .inr ?_
      by_contra none
      rcases retire_cases (c.transfer.push (.ban p)) (.peer p) with ⟨gone,_⟩ | ⟨_,_,after,_⟩
      · rw [push,frame] at gone
        dsimp only at gone
        rw [OrderedMap.get?_modify_self,found] at gone
        cases gone
      · rw [after] at here
        dsimp only at here
        rw [OrderedMap.get?_modify] at here
        split_ifs at here with own
        · obtain ⟨_,_,rfl⟩ := Option.map_eq_some_iff.mp here
          cases use
        · have before : t.lanes.get? (.peer q) = some lane' := by
            rw [push,frame] at here
            dsimp only at here
            rwa [OrderedMap.get?_modify_of_ne _ _ own] at here
          refine fairly (strands q lane' before (fun same => own (by rw [same])) use spent' (fun i member => ?_))
          by_contra missing
          refine none ⟨i,member,?_⟩
          rw [works.isVerified]
          simpa using missing
  unfold badPiece
  dsimp only
  refine Settles.after ((push_speaks c.transfer (show (Command.ban p).toPeer = true from rfl)).trans
    (retire_speaks _ _)) works ?_
  refine assign_settles loose' now _ (fun i inside => ?_)
  by_cases covered : ((c.transfer.push (.ban p)).retire (.peer p)).1.covered i
  · exact .inl covered
  · refine .inr (.inr ?_)
    rw [works.verified] at inside
    rw [List.mem_insertionSort,List.mem_append]
    by_cases lost : i ∈ ((c.transfer.push (.ban p)).retire (.peer p)).2
    · exact .inl lost
    · exact .inr (List.mem_filter.mpr ⟨List.mem_range.mpr inside,decide_eq_true ⟨covered,lost⟩⟩)
/-- An accepted response: the object is complete, or the transfer goes on. -/
theorem accept_settles {fair : Prop} {t : Transfer} (loose : Loose fair [] t) (placed : Placed t) (steady : Steady t)
    (full : Full t) (found : t.lanes.get? (.peer p) = some lane)
    (flying : (range,sent) ∈ lane.inFlight) {bytes : List UInt8} (early : now < t.floorAt)
    (good : (response sha256 t (.peer p) range bytes).bad = false) (moment : Nat) (first : Option Nat) :
    let c := response sha256 t (.peer p) range bytes
    let t' := accept sha256 c now (.peer p) moment first (t.rangeLength range)
    (c.transfer.verified.all id = true ∧ ∃ u, Speaks t u ∧ u.fixed = c.transfer.fixed ∧ InUse u (.peer p) ∧
      u.lanes.get? .origin = none ∧ t' = u.finish sha256) ∨
    (c.transfer.verified.all id = false ∧ Speaks t t' ∧ t'.fixed = c.transfer.fixed ∧ Armed fair [] t') := by
  obtain ⟨frame,_⟩ := response_facts sha256 loose.ready.orderly found flying bytes
  obtain ⟨loose',placed'⟩ := measured_loose sha256 loose placed steady full found flying good now moment first
  obtain ⟨_,mine,own,post,_⟩ := measured_lane sha256 loose.ready.orderly full found flying bytes now moment first
  obtain ⟨_,there,use⟩ := flying_used loose.ready found flying
  rw [found] at there
  cases there
  dsimp only
  set c := response sha256 t (.peer p) range bytes with named
  obtain ⟨marks,available,frame'⟩ := credited_frame c (.peer p)
  have quiet := measure_quiet (credited c (.peer p)) now (.peer p) moment first (t.rangeLength range)
  set m := (credited c (.peer p)).measure now (.peer p) moment first (t.rangeLength range) with measures
  have shape : m.fixed = c.transfer.fixed := by rw [quiet.fixed,frame']; rfl
  have silent : Speaks t m := Speaks.silent (by rw [quiet.commands,frame',frame])
  have floor : m.floorAt = t.floorAt := by rw [quiet.works.floorAt,frame',frame]; rfl
  have used : InUse m (.peer p) := ⟨mine,own,(Lane.post_eq post).2.2.1.trans use⟩
  have peers : ∀ s ∈ m.redundant (.peer p), s ≠ .peer p ∧ s.isPeer = true := by
    intro s member
    obtain ⟨entry,kept,rfl⟩ := List.mem_map.mp member
    have filtered := (List.mem_filter.mp kept).2
    simp only [decide_eq_true_eq] at filtered
    exact ⟨filtered.1,filtered.2.1⟩
  obtain ⟨loose2,placed2,speaks,works,used2⟩ :=
    dropLanes_loose now _ peers loose' placed' (by rw [floor]; exact early) used
  have dropped : (m.redundant (.peer p)).foldl (dropLane now) m =
      accepted c now (.peer p) moment first (t.rangeLength range) := rfl
  rw [dropped] at loose2 placed2 speaks works used2
  set u := accepted c now (.peer p) moment first (t.rangeLength range) with accepts
  have fixed : u.fixed = c.transfer.fixed := works.fixed.trans shape
  have all : u.verified.all id = c.transfer.verified.all id := congrArg (fun f => f.verified.all id) fixed
  have accepted' : accept sha256 c now (.peer p) moment first (t.rangeLength range) =
      if u.verified.all id then u.finish sha256 else (u.issue now (.peer p)).refill now := rfl
  rw [accepted']
  cases complete : c.transfer.verified.all id with
  | true =>
    rw [all,complete,if_pos rfl]
    exact .inl ⟨rfl,u,silent.trans speaks,fixed,used2,loose2.ready.homeless loose2.only,rfl⟩
  | false =>
    rw [all,complete,if_neg (by simp)]
    have issued := issue_gives loose2.ready now (.peer p)
    obtain ⟨lane',at2,use2⟩ := used2
    have grows := issue_grows at2 now (loose2.ready.orderly.within _ _ at2)
    have loose3 : Loose fair [] (u.issue now (.peer p)) := loose2.gives (.single issued) (issue_rated u now _)
    have placed3 : Placed (u.issue now (.peer p)) := placed2.grows grows (live_of_entry at2 use2)
      (fun i waits => .inl (by rw [issue_pending]; exact waits))
    have floor3 : (u.issue now (.peer p)).floorAt = t.floorAt :=
      (issue_works u now _).floorAt.trans (works.floorAt.trans floor)
    have refills : (u.issue now (.peer p)).refill now = (u.issue now (.peer p)).refillPeerOnly now := if_pos loose3.only
    rw [refills]
    rcases refillPeerOnly_refilled loose3.ready loose3.only loose3.begun now with refilled | ⟨_,_,_,_,late | none⟩
    · refine .inr ⟨rfl,?_,?_,loose3.gives refilled.gives refilled.rated,refilled.placed placed3,refilled.bare,
        refilled.keen loose3.known,refilled.used⟩
      · exact silent.trans
          (speaks.trans ((issue_speaks u now p).trans (refilled.gives.speaks loose3.ready loose3.only)))
      · exact refilled.gives.acts.works.fixed.trans ((issue_works u now _).fixed.trans fixed)
    · rw [floor3] at late
      omega
    · exact absurd (grows.inUse ⟨lane',at2,use2⟩) (none _)

/-! ### The endgame, progress and the start -/

theorem Quiet.armed {fair : Prop} {t t' : Transfer} (quiet : Quiet t t') (rated : Rated t t')
    (pending : t'.peerPending = t.peerPending) (armed : Armed fair [] t) : Armed fair [] t' := by
  have loose := armed.loose.gives (.single (.notes quiet)) rated
  have config : t'.config = t.config := congrArg Fixed.config quiet.fixed
  have slots : t'.holderSlots = t.holderSlots := by
    unfold holderSlots
    rw [config,active_workers (loose.ready.tidy loose.only),active_workers (armed.loose.ready.tidy armed.loose.only)]
    have same : t'.workers = t.workers := by
      ext p
      rw [mem_workers,mem_workers]
      constructor
      · rintro ⟨lane,found,work⟩
        obtain ⟨old,before,same⟩ := quiet.before found
        exact ⟨old,before,by rwa [Lane.post_work same]⟩
      · rintro ⟨lane,found,work⟩
        obtain ⟨new,after,same⟩ := quiet.after found
        exact ⟨new,after,by rwa [Lane.post_work same]⟩
    rw [same]
  refine ⟨loose,fun i inside => ?_,fun i waits => ?_,?_,armed.used.imp (fun s => quiet.inUse.mpr)⟩
  · rw [quiet.covered,pending]
    exact armed.placed i (by rwa [quiet.verified] at inside)
  · rw [quiet.covered]
    exact armed.bare i (by rwa [pending] at waits)
  · rw [Keen,pending,slots]
    intro some free s lane' found use rests
    obtain ⟨lane,before,same⟩ := quiet.before found
    obtain ⟨flight,queue,retired,_⟩ := Lane.post_eq same
    have spent := armed.keen some free s lane before (retired.trans use) ⟨flight.trans rests.1,queue.trans rests.2⟩
    unfold Spent at *
    rw [quiet.probePeers,quiet.probeAvailable]
    exact spent
theorem endgame_armed {fair : Prop} {t : Transfer} (armed : Armed fair [] t) (now : Nat) :
    Speaks t (t.endgame now) ∧ Armed fair [] (t.endgame now) := by
  have only := armed.loose.only
  cases chosen : t.endgameTarget now with
  | none =>
    rw [endgame_idle chosen]
    exact ⟨Speaks.refl t,armed⟩
  | some s =>
    obtain ⟨lane,found,use,rests,eligible,_⟩ := (endgameTarget_cases chosen).resolve_right (fun home => by
      rw [only] at home
      cases home.2.1)
    obtain ⟨normal,_,free⟩ := eligible only
    have none : t.peerPending = [] := by
      by_contra some
      refine normal (armed.keen some ?_ s lane found use rests).1
      unfold holderSlots
      omega
    cases s with
    | origin =>
      rw [armed.loose.ready.homeless only] at found
      cases found
    | peer p =>
      obtain ⟨held,ready⟩ := endgame_induction armed.loose.ready
        (P := fun _ u => Rated t u ∧ Speaks t u ∧ u.peerPending = [] ∧ Placed u ∧ (fair → Tried u []) ∧ Works t u ∧
          ∀ s, InUse t s → InUse u s) chosen
        (fun u range rest ready' used within held => by
          obtain ⟨rated,speaks,empty,placed,tried,works,stays⟩ := held
          have one : Within u.verified.length [range] := fun r member => within r (by simp_all)
          have grows := giveTo_grows ready' used now one
          have same : (giveTo now (.peer p) u range).peerPending = u.peerPending := issue_pending _ now _
          have probes := extend_rated u now (.peer p) [range] id
          refine ⟨rated.trans probes,speaks.trans ((Speaks.silent rfl).trans (issue_speaks _ now p)),
            same.trans empty,?_,?_,works.trans (giveTo_works now _ u range),fun s held => grows.inUse (stays s held)⟩
          · exact placed.grows grows used.live (fun i waits => by rw [empty] at waits; cases waits)
          · refine fun given => (tried given).grows grows (fun q spent => .inl ?_)
            unfold Spent giveTo at *
            rwa [issue_probePeers,issue_probeAvailable] at spent)
        ⟨Rated.same rfl rfl,Speaks.silent rfl,none,
          (by exact fun i inside => (armed.placed i inside).imp (fun covered =>
            (markDuplicated_quiet t).covered.mpr covered) id),
          fun given => (Give.notes (markDuplicated_quiet t)).tried armed.loose.ready (armed.loose.tried given),
          (markDuplicated_quiet t).works,fun s used => (markDuplicated_quiet t).inUse.mpr used⟩
      obtain ⟨rated,speaks,empty,placed,tried,works,stays⟩ := held
      refine ⟨speaks,⟨ready,works.peerOnly.trans only,(congrArg Fixed.started works.fixed).trans armed.loose.begun,
        rated.known armed.loose.known,tried⟩,placed,?_,?_,?_⟩
      · intro i waits
        rw [empty] at waits
        cases waits
      · exact fun some => absurd empty some
      · exact armed.used.imp stays
theorem opening_known {t : Transfer} (newborn : Newborn n t) (only : t.peerOnly = true) (now : Nat)
    (peers : List Estimate) (first rate : Option ℚ)
    (probes : List Nat) : Known (t.opening now peers none first rate probes) := by
  have listed : ∀ (estimates : List Estimate) (u : Transfer) s lane,
      (estimates.foldl (openSource now) u).lanes.get? s = some lane →
      u.lanes.get? s = some lane ∨ ∃ e ∈ estimates, lane.estimate = e ∧ s = e.source := by
    intro estimates
    induction estimates with
    | nil => exact fun u s lane found => .inl found
    | cons e rest ih =>
      intro u s lane found
      rcases ih _ s lane found with early | ⟨e',member,same⟩
      · unfold openSource at early
        split_ifs at early
        · exact .inl early
        · rw [openLane_get] at early
          split_ifs at early with own
          · cases before : u.lanes.get? s with
            | none =>
              rw [before] at early
              cases early
              exact .inr ⟨e,by simp,rfl,own⟩
            | some old =>
              rw [before] at early
              exact .inl early
          · exact .inl early
      · exact .inr ⟨e',by simp [member],same⟩
  intro s lane found _
  unfold opening at found ⊢
  dsimp only at found ⊢
  rcases listed _ _ s lane found with before | ⟨e,member,same,own⟩
  · rw [show ({ t with
      started := true, sharedFirstByteMs := first, sharedRate := rate, probePeers := _, probeAvailable := _ } :
      Transfer).lanes = t.lanes from rfl,newborn.lanes] at before
    cases before
  · rw [openSources_frame]
    dsimp only
    rw [if_pos only,same,own]
    by_cases rated : (positive e.rate).isSome = true
    · exact .inr rated
    · refine .inl (Finset.mem_union_right _
        (List.mem_toFinset.mpr (List.mem_map.mpr ⟨e,List.mem_filter.mpr ⟨?_,?_⟩,rfl⟩)))
      · simpa using member
      · simpa using rated

/-! ### When it gives up -/

/-- The floor has come for a call that looks at it: not a second start, and no failure
    of a source without a live lane. -/
def Late (t : Transfer) : Event → Prop
  | .start now .. => t.floorAt ≤ now ∧ t.started = false
  | .startPeerOnly now .. => t.floorAt ≤ now ∧ t.started = false
  | .failed now source => t.floorAt ≤ now ∧ InUse t source
  | .delivered now .. => t.floorAt ≤ now
  | .progress now .. => t.floorAt ≤ now
  | .tick now => t.floorAt ≤ now
/-- The response completes the pieces, but they are not the object. -/
def Mismatched (t : Transfer) : Event → Prop
  | .delivered now source range bytes => t.Answering now source range bytes ∧
      (response sha256 t source range bytes).bad = false ∧
      (response sha256 t source range bytes).transfer.verified.all id = true ∧
      sha256 (response sha256 t source range bytes).transfer.data ≠ t.whole
  | _ => False
/-- Why a peer-only transfer must give up in a call that leaves it so. -/
def Doomed (t : Transfer) (e : Event) (t' : Transfer) : Prop :=
  Late t e ∨ (t'.started = true ∧ ∀ s, ¬ InUse t' s) ∨ Mismatched sha256 t e

inductive Verdict (fair : Prop) (t : Transfer) (e : Event) : Transfer → Prop
  | waits (spared : ¬ Doomed sha256 t e t) : Verdict fair t e t
  | goes {t' : Transfer} (speaks : Speaks t t') (armed : Armed fair [] t') (missing : t'.verified.all id = false)
      (spared : ¬ Doomed sha256 t e t') : Verdict fair t e t'
  | fails {u : Transfer} (speaks : Speaks t u) (homeless : u.lanes.get? .origin = none)
    (due : Doomed sha256 t e u.fail) :
      Verdict fair t e u.fail
  | ends {u : Transfer} (speaks : Speaks t u) (homeless : u.lanes.get? .origin = none) (good : sha256 u.data = u.whole)
      (spared : ¬ Doomed sha256 t e (u.finish sha256)) : Verdict fair t e (u.finish sha256)

theorem closeOut_used (t : Transfer) (s : Source) : InUse t.closeOut s ↔ InUse t s := by
  unfold InUse closeOut
  simp only [OrderedMap.get?_mapValues]
  constructor
  · rintro ⟨lane,found,use⟩
    obtain ⟨old,before,rfl⟩ := Option.map_eq_some_iff.mp found
    exact ⟨old,before,use⟩
  · rintro ⟨lane,found,use⟩
    exact ⟨{ lane with inFlight := [], queue := [] },by rw [found]; rfl,use⟩
theorem finish_used (t : Transfer) (s : Source) : InUse (t.finish sha256) s ↔ InUse t s := by
  unfold finish
  split_ifs
  · exact closeOut_used t s
  · exact closeOut_used t s
theorem Armed.spared {fair : Prop} {t t' : Transfer} (armed : Armed fair [] t') (early : ¬ Late t e)
    (matched : ¬ Mismatched sha256 t e) : ¬ Doomed sha256 t e t' := by
  rintro (late | ⟨_,none⟩ | mismatched)
  · exact early late
  · obtain ⟨s,used⟩ := armed.used
    exact none s used
  · exact matched mismatched
theorem Settles.verdict {fair : Prop} {t t' : Transfer} (settles : Settles fair now t t')
    (begun : ∀ u, Works t u → u.started = true) (missing : t.verified.all id = false)
    (early : now < t.floorAt → ¬ Late t e) (late : t.floorAt ≤ now → Late t e) (matched : ¬ Mismatched sha256 t e) :
    Verdict sha256 fair t e t' := by
  rcases settles with ⟨before,speaks,works,armed⟩ | ⟨u,speaks,works,homeless,rfl,why⟩
  · exact .goes speaks armed (by rw [works.verified]; exact missing) (armed.spared sha256 (early before) matched)
  · refine .fails speaks homeless (why.elim (fun floor => .inl (late floor))
      (fun none => .inr (.inl ⟨begun u works,?_⟩)))
    exact fun s used => none s ((closeOut_used u s).mp used)
theorem closeOut_origin {t : Transfer} (homeless : t.lanes.get? .origin = none) :
    t.closeOut.lanes.get? .origin = none := by
  unfold closeOut
  simp only [OrderedMap.get?_mapValues,homeless,Option.map_none]
theorem Verdict.homeless {fair : Prop} {t t' : Transfer} (verdict : Verdict sha256 fair t e t')
    (homeless : t.lanes.get? .origin = none) : t'.lanes.get? .origin = none := by
  cases verdict with
  | waits => exact homeless
  | goes _ armed => exact armed.loose.ready.homeless armed.loose.only
  | fails _ none => exact closeOut_origin none
  | ends _ none =>
    unfold finish
    split_ifs
    · exact closeOut_origin none
    · exact closeOut_origin none
/-- Between calls a started transfer has its pieces placed and its holders at work. -/
structure Working (fair : Prop) (t : Transfer) : Prop where
  armed : Armed fair [] t
  steady : Steady t
  full : Full t
  missing : t.verified.all id = false

theorem Armed.fewer {fair fair' : Prop} {except : List Source} {t : Transfer} (armed : Armed fair except t)
    (less : fair' → fair) : Armed fair' except t :=
  ⟨⟨armed.loose.ready,armed.loose.only,armed.loose.begun,armed.loose.known,fun given => armed.loose.tried (less given)⟩,
    armed.placed,armed.bare,armed.keen,armed.used⟩
theorem Working.fewer {fair fair' : Prop} {t : Transfer} (working : Working fair t) (less : fair' → fair) :
    Working fair' t :=
  ⟨working.armed.fewer less,working.steady,working.full,working.missing⟩
section
variable {fair : Prop} {t : Transfer}

theorem Working.ticks (working : Working fair t) (floor : t.floorAt ≤ now) (late : Late t e)
    (same : handle sha256 t e = t.tick now) :
    Verdict sha256 (fair ∧ ¬ Strands sha256 t e) t e (handle sha256 t e) := by
  have loose := working.armed.loose
  have concluded : t.tick now = { t with floorReached := true }.fail := by
    unfold tick
    rw [if_neg (by simp [loose.ready.running]),if_pos loose.only,if_pos floor]
  rw [same,concluded]
  exact .fails (Speaks.silent rfl) (loose.ready.homeless loose.only) (.inl late)
theorem Working.fewer_armed (working : Working fair t) (e : Event) : Armed (fair ∧ ¬ Strands sha256 t e) [] t :=
  working.armed.fewer And.left
theorem Working.loses (working : Working fair t) (used : InUse t (.peer p)) (early : now < t.floorAt → ¬ Late t e)
    (late : t.floorAt ≤ now → Late t e) (matched : ¬ Mismatched sha256 t e)
    (same : handle sha256 t e = t.failed now (.peer p)) :
    Verdict sha256 (fair ∧ ¬ Strands sha256 t e) t e (handle sha256 t e) := by
  rw [same]
  exact (failed_settles (working.fewer_armed sha256 e).loose working.armed.placed used now).verdict sha256
    (fun u works => (congrArg Fixed.started works.fixed).trans working.armed.loose.begun) working.missing early
    late matched
theorem Working.failed_verdict (working : Working fair t) (source : Source) :
    Verdict sha256 (fair ∧ ¬ Strands sha256 t (.failed now source)) t (.failed now source)
      (handle sha256 t (.failed now source)) := by
  have loose := working.armed.loose
  by_cases used : InUse t source
  · cases source with
    | origin =>
      obtain ⟨lane,found,_⟩ := used
      rw [loose.ready.homeless loose.only] at found
      cases found
    | peer p =>
      exact working.loses sha256 used (fun early late => absurd late.1 (not_le.mpr early)) (fun floor => ⟨floor,used⟩)
        id rfl
  · have same : handle sha256 t (.failed now source) = t := by
      rcases failed_cases loose.ready now source with ⟨same,_⟩ | ⟨_,mixed,_⟩ | ⟨p,rfl,used',_⟩
      · exact same
      · rw [loose.only] at mixed
        cases mixed
      · exact absurd used' used
    rw [same]
    exact .waits (working.armed.spared sha256 (fun late => used late.2) id)
theorem Working.progress_verdict (working : Working fair t) (source : Source) (received : Nat) :
    Verdict sha256 (fair ∧ ¬ Strands sha256 t (.progress now source received)) t (.progress now source received)
      (handle sha256 t (.progress now source received)) := by
  have only := working.armed.loose.only
  by_cases floor : t.floorAt ≤ now
  · refine working.ticks sha256 floor floor ?_
    show t.progress now source received = t.tick now
    unfold progress
    rw [if_pos ⟨only,floor⟩]
  · have waits : Verdict sha256 (fair ∧ ¬ Strands sha256 t (.progress now source received)) t
        (.progress now source received) t := .waits (working.armed.spared sha256 floor id)
    unfold handle progress
    dsimp only
    rw [if_neg (fun both => floor both.2)]
    by_cases concluded : t.finished = true ∨ t.floorReached = true
    · rw [if_pos concluded]
      exact waits
    rw [if_neg concluded]
    cases t.lanes.get? source with
    | none => exact waits
    | some lane =>
      dsimp only
      by_cases useless : lane.retired = true ∨ lane.inFlight = [] ∨ source.isPeer = false
      · rw [if_pos useless]
        exact waits
      · rw [if_neg useless,if_neg (by unfold hopeless; simp [only])]
        have armed' := (Quiet.modify t source (fun _ => rfl) : Quiet t { t with
          lanes := t.lanes.modify source (fun lane => lane.progressed now received) }).armed
          (Rated.modify t source (fun _ => rfl) (fun _ => id)) rfl
          (working.fewer_armed sha256 (.progress now source received))
        exact .goes (Speaks.silent rfl) armed' working.missing (armed'.spared sha256 floor id)

section
variable (working : Working fair t) (found : t.lanes.get? (.peer p) = some lane)
  (flying : (range,sent) ∈ lane.inFlight) {bytes : List UInt8} (early : now < t.floorAt)
  (whole : bytes.length = t.rangeLength range)
include working found flying early whole

/-- A peer answers with a piece that is not the object's. -/
theorem Working.bad_verdict (bad : (response sha256 t (.peer p) range bytes).bad = true) :
    Verdict sha256 (fair ∧ ¬ Strands sha256 t (.delivered now (.peer p) range bytes)) t
      (.delivered now (.peer p) range bytes)
      ((response sha256 t (.peer p) range bytes).transfer.badPiece now (.peer p)) := by
  have loose := working.armed.loose
  have floor : ¬ t.floorAt ≤ now := not_le.mpr early
  obtain ⟨frame,length,_,inside,_,_,_,missing⟩ := response_facts sha256 loose.ready.orderly found flying bytes
  have incomplete : (response sha256 t (.peer p) range bytes).transfer.verified.all id = false := by
    obtain ⟨i,member,missing⟩ := missing bad
    by_contra all
    rw [all_verified (by simpa using all) (by rw [length]; have := mem_range_indices.mp member; omega)] at missing
    cases missing
  have silent : Speaks t (response sha256 t (.peer p) range bytes).transfer := Speaks.silent (by rw [frame])
  have matched : ¬ Mismatched sha256 t (.delivered now (.peer p) range bytes) := by
    rintro ⟨_,good,_⟩
    rw [bad] at good
    cases good
  rcases badPiece_settles sha256 loose found flying early whole bad with
    ⟨_,speaks,works,armed'⟩ | ⟨u,speaks,works,homeless,concluded,why⟩
  · exact .goes (silent.trans speaks) armed' (by rw [works.verified]; exact incomplete)
      (armed'.spared sha256 floor matched)
  · rw [concluded]
    refine .fails (silent.trans speaks) homeless (.inr (.inl ⟨?_,fun s held => ?_⟩))
    · exact (congrArg Fixed.started works.fixed).trans (by
        rw [show (response sha256 t (.peer p) range bytes).transfer.fixed.started =
          (response sha256 t (.peer p) range bytes).transfer.started from rfl,frame]
        exact loose.begun)
    · have floor' : ¬ (response sha256 t (.peer p) range bytes).transfer.floorAt ≤ now := by
        rw [frame]
        exact floor
      exact (why.resolve_left floor') s ((closeOut_used u s).mp held)
/-- A peer answers with pieces of the object, and perhaps the last of them. -/
theorem Working.good_verdict (good : (response sha256 t (.peer p) range bytes).bad = false) :
    Verdict sha256 (fair ∧ ¬ Strands sha256 t (.delivered now (.peer p) range bytes)) t
      (.delivered now (.peer p) range bytes)
      (accept sha256 (response sha256 t (.peer p) range bytes) now (.peer p) sent lane.firstByteAt
        (t.rangeLength range)) := by
  have loose := working.armed.loose
  have floor : ¬ t.floorAt ≤ now := not_le.mpr early
  have asked : range ∈ t.flight (.peer p) := by
    rw [flight_found found]
    exact List.mem_map.mpr ⟨(range,sent),flying,rfl⟩
  obtain ⟨frame,_⟩ := response_facts sha256 loose.ready.orderly found flying bytes
  have whole' : (response sha256 t (.peer p) range bytes).transfer.whole = t.whole := by rw [frame]
  rcases accept_settles sha256 loose working.armed.placed working.steady working.full found flying early good sent
    lane.firstByteAt with ⟨complete,u,speaks,fixed,used',homeless,concluded⟩ | ⟨incomplete,speaks,fixed,armed'⟩
  · have data : u.data = (response sha256 t (.peer p) range bytes).transfer.data := congrArg Fixed.data fixed
    have digest : u.whole = t.whole := (congrArg Fixed.whole fixed).trans whole'
    rw [concluded]
    by_cases right : sha256 u.data = u.whole
    · refine .ends speaks homeless right ?_
      rintro (late | ⟨_,none⟩ | ⟨_,_,_,differs⟩)
      · exact floor late
      · exact none _ ((finish_used sha256 u _).mpr used')
      · exact differs (by rw [← data,← digest]; exact right)
    · have failing : u.finish sha256 = u.fail := if_pos right
      rw [failing]
      refine .fails speaks homeless (.inr (.inr ⟨⟨early,asked,whole⟩,good,complete,?_⟩))
      rw [← data,← digest]
      exact right
  · refine .goes speaks (armed'.fewer And.left) ?_ (armed'.spared sha256 floor ?_)
    · rw [show (accept sha256 _ now (.peer p) sent lane.firstByteAt (t.rangeLength range)).verified =
        (response sha256 t (.peer p) range bytes).transfer.verified from congrArg Fixed.verified fixed]
      exact incomplete
    · rintro ⟨_,_,complete,_⟩
      rw [incomplete] at complete
      cases complete

end

theorem Working.delivered_verdict (working : Working fair t) (source : Source) (range : PieceRange)
    (bytes : List UInt8) :
    Verdict sha256 (fair ∧ ¬ Strands sha256 t (.delivered now source range bytes)) t
      (.delivered now source range bytes) (handle sha256 t (.delivered now source range bytes)) := by
  have loose := working.armed.loose
  by_cases floor : t.floorAt ≤ now
  · refine working.ticks sha256 floor floor ?_
    show t.delivered sha256 now source range bytes = t.tick now
    unfold delivered
    rw [if_pos ⟨loose.only,floor⟩]
  have early : now < t.floorAt := not_le.mp floor
  rcases delivered_cases sha256 loose.ready.running (fun _ => early) source range bytes with ⟨same,unasked⟩ |
    ⟨lane,sent,found,flying,answer⟩
  · rw [show handle sha256 t (.delivered now source range bytes) = t from same]
    refine .waits (working.armed.spared sha256 floor ?_)
    rintro ⟨⟨_,asked,_⟩,_⟩
    unfold flight at asked
    cases found : t.lanes.get? source with
    | none => rw [found] at asked; cases asked
    | some lane =>
      rw [found] at asked
      obtain ⟨entry,flying,own⟩ := List.mem_map.mp asked
      exact unasked lane found entry flying own
  · cases source with
    | origin =>
      rw [loose.ready.homeless loose.only] at found
      cases found
    | peer p =>
      rcases answer with ⟨wrong,same⟩ | ⟨whole,bad,same⟩ | ⟨whole,good,same⟩
      · exact working.loses sha256 (flying_used loose.ready found flying) (fun _ => floor)
          (fun late => absurd late floor) (fun mismatched => wrong mismatched.1.2.2) same
      · rw [show handle sha256 t (.delivered now (.peer p) range bytes) = _ from same]
        exact working.bad_verdict sha256 found flying early whole bad
      · rw [show handle sha256 t (.delivered now (.peer p) range bytes) = _ from same]
        exact working.good_verdict sha256 found flying early whole good

end

theorem working_verdict {fair : Prop} {t : Transfer} (working : Working fair t) (later : e.starts = false) :
    Verdict sha256 (fair ∧ ¬ Strands sha256 t e) t e (handle sha256 t e) := by
  cases e with
  | start | startPeerOnly => cases later
  | tick now =>
    have loose := working.armed.loose
    by_cases floor : t.floorAt ≤ now
    · exact working.ticks sha256 floor floor rfl
    · have same : handle sha256 t (.tick now) = t.endgame now := by
        show t.tick now = t.endgame now
        unfold tick
        rw [if_neg (by simp [loose.ready.running]),if_pos loose.only,if_neg floor]
      obtain ⟨speaks,armed'⟩ := endgame_armed (working.fewer_armed sha256 _) now
      rw [same]
      refine .goes speaks armed' ?_ (armed'.spared sha256 floor id)
      rw [(endgame_ready loose.ready now).2.verified]
      exact working.missing
  | progress now source received => exact working.progress_verdict sha256 source received
  | failed now source => exact working.failed_verdict sha256 source
  | delivered now source range bytes => exact working.delivered_verdict sha256 source range bytes
theorem newborn_verdict {fair : Prop} {t : Transfer} (newborn : Newborn n t) (only : t.peerOnly = true)
    (later : e.starts = false) : handle sha256 t e = t ∧ ¬ Doomed sha256 t e t ∨
      Verdict sha256 fair t e (handle sha256 t e) ∧ (handle sha256 t e).finished = true := by
  have unopened : ∀ s, t.lanes.get? s = none := fun s => by rw [newborn.lanes]; rfl
  have spared : ¬ Late t e → ¬ Doomed sha256 t e t := by
    rintro early (late | ⟨begun,_⟩ | mismatched)
    · exact early late
    · rw [newborn.started] at begun
      cases begun
    · cases e with
      | delivered now source range bytes =>
        obtain ⟨⟨_,asked,_⟩,_⟩ := mismatched
        rw [flight,unopened source] at asked
        cases asked
      | start | startPeerOnly | failed | progress | tick => exact mismatched
  have ticks : ∀ now, t.floorAt ≤ now → Late t e → handle sha256 t e = t.tick now →
      Verdict sha256 fair t e (handle sha256 t e) ∧ (handle sha256 t e).finished = true := by
    intro now floor late same
    have concluded : t.tick now = { t with floorReached := true }.fail := by
      unfold tick
      rw [if_neg (by simp [newborn.running]),if_pos only,if_pos floor]
    rw [same,concluded]
    exact ⟨.fails (Speaks.silent rfl) (unopened _) (.inl late),rfl⟩
  cases e with
  | start | startPeerOnly => cases later
  | tick now =>
    by_cases floor : t.floorAt ≤ now
    · exact .inr (ticks now floor floor rfl)
    · refine .inl ⟨?_,spared floor⟩
      rcases (Unopened.ticked unopened now).2 only with same | ⟨concluded,_⟩
      · exact same
      · rw [tick,if_neg (by simp [newborn.running]),if_pos only,if_neg floor,
          endgame_idle (by simp [endgameTarget,OrderedMap.values,OrderedMap.empty,newborn.lanes]),
            newborn.running] at concluded
        cases concluded
  | progress now source received =>
    by_cases floor : t.floorAt ≤ now
    · refine .inr (ticks now floor floor ?_)
      show t.progress now source received = t.tick now
      unfold progress
      rw [if_pos ⟨only,floor⟩]
    · refine .inl ⟨?_,spared floor⟩
      show t.progress now source received = t
      unfold progress
      rw [if_neg (fun both => floor both.2),unopened source]
      split_ifs <;> rfl
  | delivered now source range bytes =>
    by_cases floor : t.floorAt ≤ now
    · refine .inr (ticks now floor floor ?_)
      show t.delivered sha256 now source range bytes = t.tick now
      unfold delivered
      rw [if_pos ⟨only,floor⟩]
    · refine .inl ⟨?_,spared floor⟩
      show t.delivered sha256 now source range bytes = t
      unfold delivered
      rw [if_neg (fun both => floor both.2),unopened source]
      split_ifs <;> rfl
  | failed now source =>
    refine .inl ⟨?_,spared ?_⟩
    · show t.failed now source = t
      unfold failed
      rw [unopened source]
      simp [newborn.running,only]
    · rintro ⟨_,lane,found,_⟩
      rw [unopened source] at found
      cases found
theorem begins_verdict {fair : Prop} {t : Transfer} (newborn : Newborn n t) (only : t.peerOnly = true)
    (begins : Begins t e) : Verdict sha256 fair t e (handle sha256 t e) := by
  obtain ⟨now,peers,origin,first,rate,probes,none,opened,same⟩ := begins_opening sha256 newborn begins
  have home := none only
  subst home
  have known := opening_known newborn only now peers first rate probes
  have missing : (t.opening now peers Option.none first rate probes).verified.all id = false := by
    by_contra all
    have done := all_verified (by simpa using all) (show 0 < _ by rw [opened.count]; exact newborn.pieces)
    rw [opened.fresh 0] at done
    cases done
  generalize t.opening now peers Option.none first rate probes = u at opened same known missing
  have loose : Loose fair [] u := by
    refine ⟨opened.ready,opened.peerOnly.trans only,opened.started,known,fun _ p lane _ _ spent => ?_⟩
    rw [Spent,opened.allowed] at spent
    exact absurd spent.1 spent.2
  have floor : u.floorAt = t.floorAt := by unfold floorAt; rw [opened.config,opened.deadline]
  have silent : Speaks t u := Speaks.silent (by rw [opened.commands,newborn.commands])
  have late : Late t e ↔ t.floorAt ≤ e.roster.1 := by
    cases begins <;> simp [Late,Event.roster,newborn.started]
  have matched : ¬ Mismatched sha256 t e := by cases begins <;> exact id
  have settles := assign_settles loose e.roster.1 (List.range n) (fun i inside => by
    rw [opened.count] at inside
    exact .inr (.inr (List.mem_range.mpr inside)))
  rw [same]
  rcases settles with ⟨before,speaks,works,armed⟩ | ⟨v,speaks,works,homeless,concluded,why⟩
  · refine .goes (silent.trans speaks) armed (by rw [works.verified]; exact missing) (armed.spared sha256 ?_ matched)
    rw [late,← floor]
    exact not_le.mpr before
  · rw [concluded]
    refine .fails (silent.trans speaks) homeless (why.elim (fun reached => .inl ?_) (fun none => .inr (.inl ⟨?_,?_⟩)))
    · rw [late,← floor]
      exact reached
    · exact (congrArg Fixed.started works.fixed).trans opened.started
    · exact fun s used => none s ((closeOut_used v s).mp used)

/-! ### Runs -/

/-- Where a peer-only transfer stands in a run: before its start, over, or at work. -/
def Stage (fair : Prop) (n : Nat) (t : Transfer) : Prop := Newborn n t ∨ t.finished = true ∨ Working fair t

theorem Stage.fewer {fair fair' : Prop} {t : Transfer} (stage : Stage fair n t) (less : fair' → fair) :
    Stage fair' n t :=
  stage.imp id (Or.imp id (fun working => working.fewer less))
theorem Working.drained {fair : Prop} {t : Transfer} (working : Working fair t) : Working fair t.drainCommands.2 := by
  obtain ⟨⟨⟨ready,only,begun,known,tried⟩,placed,bare,keen,used⟩,steady,full,missing⟩ := working
  exact ⟨⟨⟨drained_ready ready,only,begun,known,tried⟩,placed,bare,keen,used⟩,steady,full,missing⟩
theorem Newborn.drained {t : Transfer} (newborn : Newborn n t) : Newborn n t.drainCommands.2 :=
  ⟨newborn.length,newborn.pieces,newborn.running,newborn.started,newborn.lanes,newborn.pending,rfl,newborn.fresh,
    newborn.mixed,newborn.floor,newborn.unstarted,newborn.pieceSize⟩
theorem Working.rested {fair : Prop} {t : Transfer} (working : Working fair t) (count : t.verified.length = n) :
    Rested n t :=
  ⟨working.armed.loose.ready,count,fun mixed => by rw [working.armed.loose.only] at mixed; cases mixed⟩
theorem Full.kept {t t' : Transfer} (full : Full t) (same : t'.ground = t.ground) : Full t' := by
  have size : t'.size = t.size := congrArg (fun g => g.object.size) same
  have pieceSize : t'.pieceSize = t.pieceSize := congrArg (fun g => g.object.pieceSize) same
  unfold Full
  rw [size,pieceSize,Ground.count same]
  exact full
theorem stage_step {fair : Prop} {t : Transfer} (stage : Stage fair n t) (only : t.peerOnly = true) (full : Full t)
    (count : t.verified.length = n) (e : Event) :
    (t.finished = true → handle sha256 t e = t) ∧
    (t.finished = false → Verdict sha256 (fair ∧ ¬ Strands sha256 t e) t e (handle sha256 t e) ∨
      handle sha256 t e = t ∧ ¬ Doomed sha256 t e t) ∧
    Stage (fair ∧ ¬ Strands sha256 t e) n (handle sha256 t e).drainCommands.2 ∧
      (handle sha256 t e).ground = t.ground := by
  have settled : ∀ {t' : Transfer}, Verdict sha256 (fair ∧ ¬ Strands sha256 t e) t e t' →
      t'.ground = t.ground → Steady t' →
      (t' = t → Stage (fair ∧ ¬ Strands sha256 t e) n t.drainCommands.2) →
      Stage (fair ∧ ¬ Strands sha256 t e) n t'.drainCommands.2 := by
    intro t' verdict ground steady idle
    cases verdict with
    | waits => exact idle rfl
    | goes _ armed missing _ =>
      exact .inr (.inr (Working.drained ⟨armed,steady,full.kept ground,missing⟩))
    | fails => exact .inr (.inl rfl)
    | @ends u => exact .inr (.inl (finish_over sha256 u))
  rcases stage with newborn | concluded | working
  · refine ⟨fun concluded => absurd (newborn.running.symm.trans concluded) (by simp),?_⟩
    cases starts : e.starts with
    | false =>
      have first : handle sha256 t e = t ∧ ¬ Doomed sha256 t e t ∨
          Verdict sha256 (fair ∧ ¬ Strands sha256 t e) t e (handle sha256 t e) ∧ (handle sha256 t e).finished = true :=
        newborn_verdict sha256 newborn only starts
      rcases first with ⟨same,spared⟩ | ⟨verdict,concluded⟩
      · refine ⟨fun _ => .inr ⟨same,spared⟩,?_⟩
        rw [same]
        exact ⟨.inl newborn.drained,rfl⟩
      · have unopened : Unopened t := fun s => by rw [newborn.lanes]; rfl
        refine ⟨fun _ => .inl verdict,.inr (.inl concluded),?_⟩
        rcases (unopened.waits sha256 starts).2 only with same | ⟨_,ground⟩
        · rw [same]
        · exact ground
    | true =>
      have begins : Begins t e := by
        cases e with
        | start => exact .start (fun mixed => by rw [only] at mixed; cases mixed)
        | startPeerOnly => exact .peerOnly only
        | delivered | failed | progress | tick => cases starts
      have verdict : Verdict sha256 (fair ∧ ¬ Strands sha256 t e) t e (handle sha256 t e) :=
        begins_verdict sha256 newborn only begins
      have ground : (handle sha256 t e).ground = t.ground := by
        obtain ⟨u,opened,same⟩ := begins_opened sha256 newborn begins
        obtain ⟨w,acts,ending⟩ := (opened.course e.roster.1).ending sha256
        rw [← same] at ending
        exact (ending.ground sha256).trans (acts.works.ground.trans opened.ground)
      exact ⟨fun _ => .inl verdict,
        settled verdict ground (begins_steady sha256 newborn begins) (fun _ => .inl newborn.drained),ground⟩
  · have same : handle sha256 t e = t := by
      cases starts : e.starts with
      | false => exact handle_finished sha256 concluded starts
      | true => exact start_again sha256 only (.inr concluded) starts
    refine ⟨fun _ => same,fun running => absurd (running.symm.trans concluded) (by simp),?_⟩
    rw [same]
    exact ⟨.inr (.inl concluded),rfl⟩
  · have rested := working.rested count
    refine ⟨fun concluded => absurd (rested.ready.running.symm.trans concluded) (by simp),?_⟩
    cases starts : e.starts with
    | false =>
      have verdict := working_verdict sha256 working starts
      have ground := handle_ground sha256 rested.ready rested.busy starts
      exact ⟨fun _ => .inl verdict,settled verdict ground (handle_steady sha256 rested.ready working.steady starts)
        (fun _ => .inr (.inr (working.fewer And.left).drained)),ground⟩
    | true =>
      have same := start_again sha256 only (.inl working.armed.loose.begun) starts
      have spared : ¬ Doomed sha256 t e t := by
        refine working.armed.spared sha256 ?_ ?_
        · cases e with
          | start | startPeerOnly =>
            rintro ⟨_,fresh⟩
            rw [working.armed.loose.begun] at fresh
            cases fresh
          | delivered | failed | progress | tick => cases starts
        · cases e with
          | start | startPeerOnly => exact id
          | delivered | failed | progress | tick => cases starts
      refine ⟨fun _ => .inr ⟨same,spared⟩,?_⟩
      rw [same]
      exact ⟨.inr (.inr (working.fewer And.left).drained),rfl⟩
/-- While it works, some live lane has a request in flight: a spent probe owes a piece, and
    another idle holder would have been given one. -/
theorem Working.outstanding {t : Transfer} (working : Working True t) :
    ∃ s lane, t.lanes.get? s = some lane ∧ lane.retired = false ∧ lane.inFlight ≠ [] := by
  have armed := working.armed
  have ready := armed.loose.ready
  have tidy := ready.tidy armed.loose.only
  have flies : ∀ s lane, t.lanes.get? s = some lane → lane.retired = false → ¬ lane.idle →
      ∃ s lane, t.lanes.get? s = some lane ∧ lane.retired = false ∧ lane.inFlight ≠ [] := by
    intro s lane found use works
    refine ⟨s,lane,found,use,fun none => ?_⟩
    by_cases queue : lane.queue = []
    · exact works ⟨none,queue⟩
    · exact working.steady s lane found queue none
  by_contra still
  have rests : ∀ s lane, t.lanes.get? s = some lane → lane.retired = false → lane.idle := by
    intro s lane found use
    by_contra works
    exact still (flies s lane found use works)
  obtain ⟨i,inside,missing⟩ := missing_of_all working.missing
  have waits : i ∈ t.peerPending := by
    refine (armed.placed i inside).resolve_left (fun covered => ?_)
    rcases covered_iff.mp covered with done | ⟨s,lane,found,holds⟩
    · rw [missing] at done
      cases done
    · obtain ⟨use,member⟩ := Lane.holds_iff.mp holds
      obtain ⟨flight,queue⟩ := rests s lane found use
      rw [Lane.work,flight,queue] at member
      cases member
  have free : t.holderSlots ≠ 0 := by
    have none : t.workers = ∅ := by
      refine Finset.eq_empty_of_forall_notMem (fun p working => ?_)
      obtain ⟨lane,found,work⟩ := mem_workers.mp working
      by_cases use : lane.retired = false
      · obtain ⟨flight,queue⟩ := rests _ lane found use
        exact work (by simp [Lane.work,flight,queue])
      · exact work (ready.orderly.gone _ lane found (by simpa using use))
    unfold holderSlots
    rw [active_workers tidy,none,Finset.card_empty]
    omega
  obtain ⟨s,lane,found,use⟩ := armed.used
  have idle := rests s lane found use
  have spent := armed.keen (List.ne_nil_of_mem waits) free s lane found use idle
  cases s with
  | origin =>
    rw [tidy.homeless] at found
    cases found
  | peer p =>
    obtain ⟨j,member,_⟩ := (armed.loose.tried trivial p lane found use spent).resolve_left (by simp)
    rw [Lane.work,idle.1,idle.2] at member
    cases member
theorem Verdict.commands {fair : Prop} {t t' : Transfer} (verdict : Verdict sha256 fair t e t')
    (silent : t.commands = []) : (∀ c ∈ t'.commands, (∀ range, c ≠ .fetchOrigin range) ∧ ∀ p, c ≠ .abandon p) ∧
      (.fail ∈ t'.commands ↔ Doomed sha256 t e t') := by
  have plain : ∀ c : Command, c.toPeer = true → (∀ range, c ≠ .fetchOrigin range) ∧ (∀ p, c ≠ .abandon p) ∧
      c ≠ .fail := by
    intro c peers
    cases c <;> simp_all [Command.toPeer]
  cases verdict with
  | waits spared => simp [silent,spared]
  | goes speaks _ _ spared =>
    obtain ⟨cs,told,each⟩ := speaks
    rw [told,silent,List.nil_append]
    exact ⟨fun c member => ⟨(plain c (each c member)).1,(plain c (each c member)).2.1⟩,
      fun member => absurd rfl (plain _ (each _ member)).2.2,fun due => absurd due spared⟩
  | fails speaks _ due =>
    obtain ⟨cs,told,each⟩ := fail_told speaks
    rw [told,silent,List.nil_append]
    refine ⟨fun c member => ?_,fun _ => due,fun _ => by simp⟩
    rcases List.mem_append.mp member with member | last
    · exact ⟨(plain c (each c member)).1,(plain c (each c member)).2.1⟩
    · rw [List.mem_singleton] at last
      subst last
      simp
  | @ends u speaks _ good spared =>
    obtain ⟨cs,told,each⟩ := fail_told speaks
    have same : u.finish sha256 = { u.closeOut.push (.deliver u.data) with data := [] } := if_neg (not_not.mpr good)
    have said : (u.finish sha256).commands = cs ++ [.deliver u.data] := by
      have both : u.closeOut.commands ++ [Command.fail] = cs ++ [.fail] := by
        rw [silent,List.nil_append] at told
        exact told
      rw [same]
      show u.closeOut.commands ++ [.deliver u.data] = _
      rw [List.append_cancel_right both]
    rw [said]
    refine ⟨fun c member => ?_,fun member => ?_,fun due => absurd due spared⟩
    · rcases List.mem_append.mp member with member | last
      · exact ⟨(plain c (each c member)).1,(plain c (each c member)).2.1⟩
      · rw [List.mem_singleton] at last
        subst last
        simp
    · rcases List.mem_append.mp member with member | last
      · exact absurd rfl (plain _ (each _ member)).2.2
      · simp at last
/-- The law of a peer-only transfer, in every run. Between calls every piece of a started,
    unfinished transfer is covered or pending, and none is both; a request is outstanding,
    unless a response stranded a probe; no more peers work than may, and none of the lanes
    is origin's. A call asks peers alone, and gives up exactly when it is due. -/
theorem peerOnly_law {config : TransferConfig} {size : Nat} {digest : String} {pieces : List String} {deadline : Nat}
    {t : Transfer} (made : newPeerOnly config size digest pieces deadline = some t) (events : List Event) (e : Event) :
    let u := after sha256 t events
    let v := handle sha256 u e
    (u.started = true → u.finished = false →
      (∀ i < u.verified.length, u.covered i ∨ i ∈ u.peerPending) ∧ (∀ i ∈ u.peerPending, ¬ u.covered i) ∧
      ((∀ pre e post, events = pre ++ e :: post → ¬ Strands sha256 (after sha256 t pre) e) →
        ∃ s lane, u.lanes.get? s = some lane ∧ lane.retired = false ∧ lane.inFlight ≠ [])) ∧
    u.workers.card ≤ max config.maxHolders 1 ∧ u.lanes.get? .origin = none ∧
    (∀ c ∈ v.commands, (∀ range, c ≠ .fetchOrigin range) ∧ ∀ p, c ≠ .abandon p) ∧
    (.fail ∈ v.commands ↔ u.finished = false ∧ Doomed sha256 u e v) := by
  obtain ⟨newborn,only,_,_⟩ := peerOnly_newborn made
  have full : Full t := by
    obtain ⟨plain,first,rfl⟩ := Option.map_eq_some_iff.mp made
    obtain ⟨born,_⟩ := new_newborn first
    have covers := (pieceCount_covers (new_counted first)).2
    obtain ⟨o,streams,size',_⟩ := made_streams sha256 (.inl first)
    have same : plain.size = size := (congrArg Object.size streams.object).trans size'
    refine ⟨by rw [show _ = plain.pieceSize from rfl,born.pieceSize]; exact pieceSize_pos _,fun i inside => ?_⟩
    have bound : i ≤ pieces.length - 1 := by
      have := born.length
      dsimp only at inside
      omega
    calc i * plain.pieceSize ≤ (pieces.length - 1) * plain.pieceSize := Nat.mul_le_mul_right _ bound
      _ < plain.size := by rw [born.pieceSize,same]; exact covers
  have held : ∀ events, let u := after sha256 t events
      let fair := ∀ pre e post, events = pre ++ e :: post → ¬ Strands sha256 (after sha256 t pre) e
      Stage fair pieces.length u ∧ u.peerOnly = true ∧ Full u ∧ u.verified.length = pieces.length ∧
        u.lanes.get? .origin = none ∧ u.commands = [] := by
    intro events
    induction events using List.reverseRecOn with
    | nil => exact ⟨.inl newborn,only,full,newborn.length,
      by rw [show after sha256 t [] = t from rfl,newborn.lanes]; rfl,newborn.commands⟩
    | append_singleton events e ih =>
      obtain ⟨stage,mode,full',count,homeless,silent⟩ := ih
      dsimp only
      rw [after_concat]
      set u := after sha256 t events with named
      obtain ⟨concluded,verdict,next,ground⟩ := stage_step sha256 stage mode full' count e
      refine ⟨next.fewer (fun fair => ⟨fun pre e' post split => ?_,fair events e [] rfl⟩),
        (Ground.mode ground).trans mode,full'.kept ground,(Ground.count ground).trans count,?_,rfl⟩
      · exact fair pre e' (post ++ [e]) (by simp [split])
      · show (handle sha256 u e).lanes.get? .origin = none
        cases running : u.finished with
        | true =>
          rw [concluded running]
          exact homeless
        | false =>
          rcases verdict running with verdict | ⟨same,_⟩
          · exact verdict.homeless sha256 homeless
          · rw [same]
            exact homeless
  obtain ⟨stage,mode,full',count,homeless,silent⟩ := held events
  obtain ⟨concluded,verdict,_,_⟩ := stage_step sha256 stage mode full' count e
  dsimp only
  have limited := peerOnly_limited sha256 made events
  set u := after sha256 t events with named
  refine ⟨fun begun running => ?_,limited,homeless,?_⟩
  · rcases stage with newborn' | ended | working
    · rw [newborn'.started] at begun
      cases begun
    · rw [running] at ended
      cases ended
    · exact ⟨working.armed.placed,working.armed.bare,fun fair => (working.fewer (fun _ => fair)).outstanding⟩
  · cases running : u.finished with
    | true =>
      rw [concluded running,silent]
      simp
    | false =>
      rcases verdict running with verdict | ⟨same,spared⟩
      · simpa using verdict.commands sha256 silent
      · rw [same,silent]
        simpa using spared

private def armObject : Option Transfer := newPeerOnly ⟨3,0⟩ 196608 zeroDigest (List.replicate 3 zeroDigest) 10000
/-- A digest that is the committed one for what starts with a zero byte. -/
private def headDigest : List UInt8 → Digest := fun bytes => if bytes.head? = some 0 then List.replicate 32 0 else []
private def zeroPiece : List UInt8 := List.replicate 65536 0
private def onePiece : List UInt8 := List.replicate 65536 1
private theorem piece_lengths : zeroPiece.length = 65536 ∧ onePiece.length = 65536 :=
  ⟨List.length_replicate,List.length_replicate⟩
private def armStart : Event :=
  .startPeerOnly 0 [⟨.peer 1,none,none⟩,⟨.peer 2,none,none⟩,⟨.peer 3,some 0,some 65536⟩] none none [3]
private def armEvents : List Event := [.delivered 1 (.peer 3) ⟨2,3⟩ zeroPiece,.tick 2500,
  .delivered 2501 (.peer 3) ⟨0,2⟩ (zeroPiece ++ onePiece),.delivered 2502 (.peer 1) ⟨0,1⟩ zeroPiece,
    .failed 2503 (.peer 2)]
/-- Three probes are at work after the start. -/
theorem peerOnly_law_started : ∃ t, newPeerOnly ⟨3,0⟩ 196608 zeroDigest (List.replicate 3 zeroDigest) 10000 = some t ∧
    ∃ s lane, (after headDigest t [armStart]).lanes.get? s = some lane ∧ lane.retired = false ∧ lane.inFlight ≠ [] := by
  obtain ⟨t,made⟩ := Option.isSome_iff_exists.mp (by decide +kernel : armObject.isSome = true)
  have evaluated :
      armObject.map (fun t => ((after headDigest t [armStart]).started,(after headDigest t [armStart]).finished)) =
      some (true,false) := by decide +kernel
  rw [made] at evaluated
  unfold armObject at made
  have state := Option.some.inj evaluated
  simp only [Prod.mk.injEq] at state
  refine ⟨t,made,((peerOnly_law headDigest made [armStart] (.tick 1)).1 state.1 state.2).2.2
    (fun pre e post split => ?_)⟩
  rcases pre with _ | ⟨first,rest⟩
  · obtain ⟨rfl,_⟩ := List.cons.inj split
    exact id
  · simp at split
private def armReport (u : Transfer) : Bool × Nat × List Nat × List Bool :=
  (u.started && !u.finished && u.lanes.values.all (fun lane => lane.inFlight.isEmpty),u.floorAt,u.peerPending,
    u.lanes.values.map (·.retired))
/-- The floor alone does not end a transfer: a second start and the failure of a peer without
    a lane are left out. And a run may hang: peer 3 duplicates the pieces of two probes,
    sends the first of them well and the second badly, and when then peer 2 fails, piece 1
    pends, peer 1 is a spent probe, and nothing is outstanding long before the floor. -/
theorem peerOnly_law_exceptions :
    ∃ t, newPeerOnly ⟨3,0⟩ 196608 zeroDigest (List.replicate 3 zeroDigest) 10000 = some t ∧
    (let u := after headDigest t [armStart];
      u.finished = false ∧ u.floorAt = 10000 ∧ (handle headDigest u (.failed 10000 (.peer 9))).commands = [] ∧
        (handle headDigest u (.startPeerOnly 10000 [] none none [])).commands = []) ∧
    (let u := after headDigest t (armStart :: armEvents);
      u.started = true ∧ u.finished = false ∧ u.floorAt = 10000 ∧ u.peerPending = [1] ∧
        (u.lanes.values.map (·.retired) = [false,true,true]) ∧ ∀ lane ∈ u.lanes.values, lane.inFlight = []) := by
  obtain ⟨t,made⟩ := Option.isSome_iff_exists.mp (by decide +kernel : armObject.isSome = true)
  have one : armObject.map (fun t => let u := after headDigest t [armStart];
      (u.finished,u.floorAt,(handle headDigest u (.failed 10000 (.peer 9))).commands,
        (handle headDigest u (.startPeerOnly 10000 [] none none
          [])).commands)) = some (false,10000,[],[]) := by decide +kernel
  have two : armObject.map (fun t => armReport
      (armEvents.foldl (fun u e => (replay headDigest u e).drainCommands.2)
        (handle headDigest t armStart).drainCommands.2)) =
      some (true,10000,[1],[false,true,true]) := by decide +kernel
  have lengths : armObject.map (fun t => (t.rangeLength ⟨2,3⟩,t.rangeLength ⟨0,2⟩,t.rangeLength ⟨0,1⟩)) =
      some (65536,131072,65536) := by decide +kernel
  rw [made] at one two lengths
  unfold armObject at made
  obtain ⟨newborn,only,_⟩ := peerOnly_newborn made
  have replays : after headDigest t (armStart :: armEvents) =
      armEvents.foldl (fun u e => (replay headDigest u e).drainCommands.2)
        (handle headDigest t armStart).drainCommands.2 :=
    after_replay headDigest newborn (.peerOnly only) (by decide) (by
      have sizes := Option.some.inj lengths
      simp only [Prod.mk.injEq] at sizes
      intro now source range bytes member
      simp only [armEvents,List.mem_cons,Event.delivered.injEq,reduceCtorEq,List.not_mem_nil,or_false,false_or]
        at member
      rcases member with ⟨_,_,rfl,rfl⟩ | ⟨_,_,rfl,rfl⟩ | ⟨_,_,rfl,rfl⟩
      · rw [sizes.1]; exact piece_lengths.1
      · rw [sizes.2.1,List.length_append,piece_lengths.1,piece_lengths.2]
      · rw [sizes.2.2]; exact piece_lengths.1)
  have early := Option.some.inj one
  have late := Option.some.inj two
  simp only [armReport,Prod.mk.injEq,Bool.and_eq_true,Bool.not_eq_true',List.all_eq_true,List.isEmpty_iff] at early late
  obtain ⟨⟨⟨begun,running⟩,silent⟩,floor,pending,retired⟩ := late
  refine ⟨t,made,early,?_⟩
  rw [replays]
  exact ⟨begun,running,floor,pending,retired,silent⟩
end
end Transfer
end RelaySwarm.Transfers
