import RelaySwarm.TransferLanes

/-!
Coverage of a mixed transfer. While it runs, every piece is verified or held by
a live lane, and a live lane with queued work has a request in flight
(`Covered`). A response, a failure, a ban, an abandoned request and the floor
take pieces from a lane and hand out what nothing else covers, so a run loses no
piece and always has a request outstanding (`mixed_run_covered`).
-/
namespace RelaySwarm.Transfers
open Pieces Planning
namespace Transfer

/-! ### Moving pieces of origin -/

variable {t : Transfer} {i : Nat} {s source : Source}
theorem owed_lt (orderly : Orderly t) {origin : Lane} (found : t.lanes.get? .origin = some origin)
    (member : i ∈ t.owed origin) : i < t.verified.length := by
  have within := orderly.within _ _ found
  unfold owed at member
  have listed := (List.mem_filter.mp ((List.mem_insertionSort _).mp (List.mem_dedup.mp member))).1
  split_ifs at listed
  · exact within_lt (within_append.mp within).2 listed
  · exact within_lt within listed
theorem claimOrigin_loses (orderly : Orderly t) (claimed : List Nat) :
    Loses t (t.claimOrigin claimed) claimed ∧
      ∀ s, s.isPeer = true → (t.claimOrigin claimed).lanes.get? s = t.lanes.get? s := by
  have others : ∀ s, s ≠ .origin → (t.claimOrigin claimed).lanes.get? s = t.lanes.get? s :=
    fun s differs => OrderedMap.get?_modify_of_ne _ _ differs
  have origin : ∀ lane', (t.claimOrigin claimed).lanes.get? .origin = some lane' → ∃ lane,
      t.lanes.get? .origin = some lane ∧ lane' = { lane with
        queue := runs ((indices lane.queue).filter (fun index => index ∉ claimed)) } := by
    intro lane' found
    rw [claimOrigin,OrderedMap.get?_modify_self] at found
    obtain ⟨lane,old,rfl⟩ := Option.map_eq_some_iff.mp found
    exact ⟨lane,old,rfl⟩
  refine ⟨⟨⟨?_,?_,?_⟩,?_,?_,?_⟩,fun s peer => others s (by rintro rfl; cases peer)⟩
  · intro s lane' found
    by_cases own : s = .origin
    · subst own
      obtain ⟨lane,old,rfl⟩ := origin lane' found
      obtain ⟨flight,queue⟩ := within_append.mp (orderly.within _ _ old)
      refine within_append.mpr ⟨flight,within_runs (fun i member => ?_)⟩
      exact within_lt queue (List.mem_filter.mp member).1
    · exact orderly.within s lane' (by rw [← others s own]; exact found)
  · intro s lane' found gone
    by_cases own : s = .origin
    · subst own
      obtain ⟨lane,old,rfl⟩ := origin lane' found
      obtain ⟨flight,queue⟩ := List.append_eq_nil_iff.mp (orderly.gone _ _ old gone)
      simp [Lane.work,flight,queue,runs]
    · exact orderly.gone s lane' (by rw [← others s own]; exact found) gone
  · intro s lane' found
    by_cases own : s = .origin
    · subst own
      obtain ⟨lane,old,rfl⟩ := origin lane' found
      exact orderly.keyed _ lane old
    · exact orderly.keyed s lane' (by rw [← others s own]; exact found)
  · intro s busy lane' found some
    by_cases own : s = .origin
    · subst own
      obtain ⟨lane,old,rfl⟩ := origin lane' found
      refine busy lane old (fun none => some ?_)
      simp [none,runs]
    · exact busy lane' (by rw [← others s own]; exact found) some
  · intro i covered
    rcases covered_iff.mp covered with done | ⟨s,lane,found,holds⟩
    · exact .inl (covered_iff.mpr (.inl done))
    by_cases own : s = .origin
    · by_cases taken : i ∈ claimed
      · exact .inr taken
      subst own
      refine .inl (covered_iff.mpr (.inr ⟨.origin,{ lane with
        queue := runs ((indices lane.queue).filter (fun index => index ∉ claimed)) },?_,?_⟩))
      · simp [claimOrigin,found]
      · rw [Lane.holds_iff] at holds ⊢
        refine ⟨holds.1,?_⟩
        rw [Lane.work,indices_append,List.mem_append] at holds ⊢
        refine holds.2.imp id (fun queued => ?_)
        rw [indices_runs]
        exact List.mem_filter.mpr ⟨queued,by simpa using taken⟩
    · exact .inl (covered_iff.mpr (.inr ⟨s,lane,by rw [others s own]; exact found,holds⟩))
  · rintro ⟨lane,found,use⟩
    exact ⟨{ lane with queue := runs ((indices lane.queue).filter (fun index => index ∉ claimed)) },
      by simp [claimOrigin,found],use⟩
theorem moveAssignments_keeps (now : Nat) (assignments : List Assignment) : ∀ {t : Transfer}, Orderly t →
    (∀ a ∈ assignments, (∃ lane, t.lanes.get? a.source = some lane ∧ lane.retired = false) ∧
      Within t.verified.length a.ranges) →
      Keeps t (assignments.foldl (moveAssignment now) t) ∧
        ∀ i ∈ dealt assignments, (assignments.foldl (moveAssignment now) t).covered i := by
  induction assignments with
  | nil => intro t orderly _; exact ⟨Loses.refl orderly,by simp [dealt]⟩
  | cons a rest ih =>
    intro t orderly usable
    obtain ⟨⟨lane,found,use⟩,within⟩ := usable a (by simp)
    have live := live_of_entry found use
    have same : moveAssignment now t a = (t.extendQueue a.source a.ranges
        (fun finishAt => max finishAt (projection now a))).issue now a.source := by
      simp only [moveAssignment,found]
    have grows := extend_grows found now (fun finishAt => max finishAt (projection now a))
      (orderly.within _ _ found) within
    rw [← same] at grows
    have kept := grows.keeps orderly live
    obtain ⟨later,others⟩ := ih (t := moveAssignment now t a) kept.orderly (fun b member => by
      obtain ⟨⟨other,lies,live'⟩,inside⟩ := usable b (by simp [member])
      refine ⟨?_,by rw [grows.verified]; exact inside⟩
      by_cases own : b.source = a.source
      · obtain ⟨old,new,before,after,retired,_⟩ := grows.here
        rw [found] at before
        cases before
        exact ⟨new,by rw [own]; exact after,retired.trans use⟩
      · exact ⟨other,by rw [grows.others _ own]; exact lies,live'⟩)
    refine ⟨Loses.then kept later,fun i member => ?_⟩
    rcases List.mem_append.mp (by simpa [dealt] using member : i ∈ indices a.ranges ++ dealt rest) with mine | theirs
    · exact later.kept (grows.covers live (.inr mine))
    · exact others i theirs
theorem rebalanceOrigin_keeps (orderly : Orderly t) (now : Nat) : Keeps t (t.rebalanceOrigin now) := by
  rcases rebalanceOrigin_cases t now with same | ⟨origin,planned,_,_,found,moved,same⟩
  · rw [same]; exact Loses.refl orderly
  obtain ⟨input,peers,rfl,staffed,spare,needed⟩ := movedPlan_split moved
  obtain ⟨proper,sources⟩ := split_proper input staffed
  have pieces := split_dealt input staffed
  have within := within_of_dealt t.verified.length proper
    (by rw [pieces]; exact fun i member => owed_lt orderly found (needed i member).1)
  have usable : ∀ a ∈ (split input peers).assignments, a.source.isPeer = true ∧
      ∃ lane, t.lanes.get? a.source = some lane ∧ lane.retired = false := by
    intro a member
    obtain ⟨p,listed,source⟩ := sources a member
    obtain ⟨entry,live,_,estimate⟩ := spare p listed
    obtain ⟨here,peer,use⟩ := mem_livePeers.mp live
    have key : a.source = entry.1 := by rw [source,estimate,orderly.keyed _ _ here]
    exact ⟨by rw [key]; exact peer,entry.2,by rw [key]; exact here,use⟩
  rw [same]
  by_cases exclusive : t.exclusiveOrigin = true
  · rw [if_pos exclusive]
    obtain ⟨loses,others⟩ := claimOrigin_loses orderly (dealt (split input peers).assignments)
    obtain ⟨kept,own⟩ := moveAssignments_keeps now (split input peers).assignments
      (t := t.claimOrigin (dealt (split input peers).assignments)) loses.orderly (fun a member => by
        obtain ⟨peer,lane,here,use⟩ := usable a member
        exact ⟨⟨lane,by rw [others _ peer]; exact here,use⟩,within a member⟩)
    have whole := loses.trans kept
    rw [List.append_nil] at whole
    exact whole.restored own
  · rw [if_neg exclusive]
    exact (moveAssignments_keeps now (split input peers).assignments orderly
      (fun a member => ⟨(usable a member).2,within a member⟩)).1

/-! ### The calls of the shell -/

/-- The state of a mixed transfer that runs. -/
structure Covered (n : Nat) (t : Transfer) : Prop where
  length : t.verified.length = n
  mixed : t.peerOnly = false
  running : t.finished = false
  orderly : Orderly t
  homed : Homed t
  busy : ∀ s, Busy t s
  covers : ∀ i < t.verified.length, t.covered i
  missing : ∃ i < t.verified.length, t.isVerified i = false
/-- A mixed transfer that is over, or covered. -/
def Settled (n : Nat) (t : Transfer) : Prop := t.peerOnly = false ∧ (t.finished = false → Covered n t)

variable {n : Nat}

theorem Covered.settled (covered : Covered n t) : Settled n t := ⟨covered.mixed,fun _ => covered⟩
theorem Covered.step {t t' : Transfer} (covered : Covered n t) (keeps : Keeps t t') (works : Works t t') :
    Covered n t' where
  length := (congrArg List.length works.verified).trans covered.length
  mixed := works.peerOnly.trans covered.mixed
  running := works.finished.trans covered.running
  orderly := keeps.orderly
  homed := keeps.homed covered.homed
  busy s := keeps.busy s (covered.busy s)
  covers i inside := keeps.kept (covered.covers i (by rwa [works.verified] at inside))
  missing := by
    obtain ⟨i,inside,fresh⟩ := covered.missing
    exact ⟨i,by rwa [works.verified],(works.isVerified i).trans fresh⟩
theorem fail_settled (mixed : t.peerOnly = false) : Settled n t.fail :=
  ⟨mixed,fun running => by cases running⟩
theorem modify_works (t : Transfer) (s : Source) (f : Lane → Lane) :
    Works t { t with lanes := t.lanes.modify s f } := Works.quiet rfl rfl rfl

theorem push_keeps (orderly : Orderly t) (command : Command) : Keeps t (t.push command) :=
  Loses.same rfl rfl orderly
theorem cancelSource_keeps (orderly : Orderly t) (s : Source) : Keeps t (t.cancelSource s) := by
  cases s with
  | origin => exact Loses.refl orderly
  | peer p => exact push_keeps orderly _
theorem abandon_covered (covered : Covered n t) (now : Nat) (s : Source) : Covered n (t.abandon now s) := by
  cases s with
  | origin => exact covered
  | peer p =>
    have pushed := covered.step (push_keeps covered.orderly (.abandon p)) (push_works t rfl)
    have moved := pushed.step (reassign_keeps pushed.mixed pushed.running pushed.orderly pushed.homed now
      (s := .peer p) rfl) (reassign_works pushed.mixed now _)
    exact moved.step (rebalanceOrigin_keeps moved.orderly now) (rebalanceOrigin_works _ now)
theorem failed_settled (covered : Covered n t) (now : Nat) (s : Source) : Settled n (t.failed now s) := by
  unfold failed
  split_ifs with concluded origin
  · exact covered.settled
  · exact absurd covered.mixed (by simp [*])
  · exact fail_settled covered.mixed
  cases found : t.lanes.get? s with
  | none => exact covered.settled
  | some lane =>
    have peer : s.isPeer = true := by
      cases s with
      | peer => rfl
      | origin => exact absurd rfl origin
    dsimp only
    split_ifs
    · exact covered.settled
    · have moved := covered.step (reassign_keeps covered.mixed covered.running covered.orderly covered.homed now peer)
        (reassign_works covered.mixed now _)
      exact (moved.step (rebalanceOrigin_keeps moved.orderly now) (rebalanceOrigin_works _ now)).settled

theorem queueOrigins_keeps (now : Nat) (ranges : List PieceRange) : ∀ {t : Transfer}, t.peerOnly = false →
    Orderly t → Homed t → Within t.verified.length ranges →
      Keeps t (ranges.foldl (fun t range => t.queueOrigin now range) t) ∧
      Works t (ranges.foldl (fun t range => t.queueOrigin now range) t) ∧
        ∀ i ∈ indices ranges, (ranges.foldl (fun t range => t.queueOrigin now range) t).covered i := by
  induction ranges with
  | nil => intro t _ orderly _ _; exact ⟨Loses.refl orderly,Works.refl t,by simp⟩
  | cons range rest ih =>
    intro t mixed orderly homed within
    have works := queueOrigin_works mixed now range
    obtain ⟨kept,own⟩ := queueOrigin_keeps mixed orderly homed now
      (show Within t.verified.length [range] from fun r member => within r (by simp_all))
    obtain ⟨later,more,others⟩ := ih (works.peerOnly.trans mixed) kept.orderly (kept.homed homed)
      (fun r member => by rw [works.verified]; exact within r (by simp [member]))
    refine ⟨Loses.then kept later,works.trans more,fun i member => ?_⟩
    rcases List.mem_append.mp (by simpa using member : i ∈ range.indices ++ indices rest) with mine | theirs
    · exact later.kept (own i mine)
    · exact others i theirs
theorem duplicate_keeps (now : Nat) (ranges : List PieceRange) : ∀ {t : Transfer}, Orderly t →
    (∃ lane, t.lanes.get? s = some lane ∧ lane.retired = false) → Within t.verified.length ranges →
      Keeps t (ranges.foldl (fun t range => (t.extendQueue s [range] id).issue now s) t) ∧
      Works t (ranges.foldl (fun t range => (t.extendQueue s [range] id).issue now s) t) := by
  induction ranges with
  | nil => intro t orderly _ _; exact ⟨Loses.refl orderly,Works.refl t⟩
  | cons range rest ih =>
    intro t orderly usable within
    obtain ⟨lane,found,use⟩ := usable
    have grows := extend_grows found now id (orderly.within _ _ found)
      (show Within t.verified.length [range] from fun r member => within r (by simp_all))
    have kept := grows.keeps orderly (live_of_entry found use)
    have works := (extendQueue_works t s [range] id).trans (issue_works _ now s)
    obtain ⟨later,more⟩ := ih kept.orderly (by
        obtain ⟨old,new,before,after,retired,_⟩ := grows.here
        rw [found] at before
        cases before
        exact ⟨new,after,retired.trans use⟩)
      (fun r member => by rw [works.verified]; exact within r (by simp [member]))
    exact ⟨Loses.then kept later,works.trans more⟩
theorem fastest_mem {rate : Lane → ℚ} {entries : List (Source × Lane)} {best : Source × Lane}
    (found : fastest rate entries = some best) : best ∈ entries := by
  induction entries with
  | nil => cases found
  | cons entry rest ih =>
    unfold fastest at found
    split at found
    · cases found; simp
    · rename_i later
      split_ifs at found
      · cases found; exact List.mem_cons_of_mem _ (ih later)
      · cases found; simp
theorem endgamePieces_lt (member : i ∈ t.endgamePieces) : i < t.verified.length := by
  unfold endgamePieces at member
  dsimp only at member
  split_ifs at member
  · cases member
  · exact List.mem_range.mp (List.mem_filter.mp (List.mem_filter.mp member).1).1
theorem endgame_covered (covered : Covered n t) (now : Nat) : Covered n (t.endgame now) := by
  unfold endgame
  dsimp only
  split_ifs with quiet peerOnly
  · exact covered
  · exact absurd covered.mixed (by simp [peerOnly])
  · have duplicated : Covered n { t with duplicated := t.duplicated ∪ t.endgamePieces.toFinset } :=
      covered.step (Loses.same rfl rfl covered.orderly) (Works.quiet rfl rfl rfl)
    have within : Within t.verified.length (runs t.endgamePieces) := within_runs (fun i => endgamePieces_lt)
    cases best : fastest (fun lane => (positive lane.estimate.rate).getD 0) (t.livePeers.filter (fun entry =>
        entry.2.idle)) with
    | none =>
      obtain ⟨kept,works,_⟩ := queueOrigins_keeps now (runs t.endgamePieces) duplicated.mixed duplicated.orderly
        duplicated.homed within
      exact duplicated.step kept works
    | some entry =>
      obtain ⟨found,peer,use⟩ := mem_livePeers.mp (List.mem_filter.mp (fastest_mem best)).1
      obtain ⟨s,lane⟩ := entry
      cases s with
      | origin => cases peer
      | peer p =>
        obtain ⟨kept,works⟩ := duplicate_keeps now (s := .peer p) (runs t.endgamePieces) duplicated.orderly
          ⟨lane,found,use⟩ within
        exact duplicated.step kept works

theorem cancelLanes_loses (sources : List Source) (peers : ∀ s ∈ sources, s.isPeer = true) :
    ∀ (t start : Transfer) (pieces : List Nat), Loses start t pieces → Works start t →
      (∀ i ∈ pieces, i < start.verified.length) →
      Loses start (sources.foldl cancelLane (t,pieces)).1 (sources.foldl cancelLane (t,pieces)).2 ∧
      Works start (sources.foldl cancelLane (t,pieces)).1 ∧
        ∀ i ∈ (sources.foldl cancelLane (t,pieces)).2, i < start.verified.length := by
  induction sources with
  | nil => intro t start pieces loses works inside; exact ⟨loses,works,inside⟩
  | cons s rest ih =>
    intro t start pieces loses works inside
    have told := cancelSource_works t s
    have pushed := cancelSource_keeps loses.orderly s
    obtain ⟨taken,within,_⟩ := retire_loses pushed.orderly (peers s (by simp))
    refine ih (fun s member => peers s (by simp [member])) _ start _
      (by simpa using loses.trans (pushed.trans taken)) (works.trans (told.trans (retire_works _ _))) ?_
    intro i member
    rcases List.mem_append.mp member with old | new
    · exact inside i old
    · rw [← (works.trans told).verified]; exact within i new
theorem lateLanes_peer (member : s ∈ t.lateLanes) : s.isPeer = true := by
  obtain ⟨entry,listed,rfl⟩ := List.mem_map.mp member
  exact (mem_livePeers.mp (List.mem_filter.mp listed).1).2.1
theorem reachFloor_covered (covered : Covered n t) (now : Nat) : Covered n (t.reachFloor now) := by
  have marked : Covered n { t with floorReached := true } :=
    covered.step (Loses.same rfl rfl covered.orderly) (Works.quiet rfl rfl rfl)
  unfold reachFloor
  dsimp only
  generalize ({ t with floorReached := true } : Transfer) = floored at marked
  obtain ⟨loses,works,inside⟩ := cancelLanes_loses floored.lateLanes (fun s => lateLanes_peer) floored floored []
    (Loses.refl marked.orderly) (Works.refl floored) (by simp)
  generalize floored.lateLanes.foldl cancelLane (floored,[]) = retired at loses works inside ⊢
  have member : ∀ i, i ∈ ((retired.2.filter (fun index => ¬ retired.1.covered index)).insertionSort (· ≤ ·)).dedup ↔
      i ∈ retired.2 ∧ ¬ retired.1.covered i := by
    intro i
    rw [List.mem_dedup,List.mem_insertionSort,List.mem_filter]
    simp
  obtain ⟨kept,more,own⟩ := queueOrigins_keeps now
    (runs ((retired.2.filter (fun index => ¬ retired.1.covered index)).insertionSort (· ≤ ·)).dedup)
    (works.peerOnly.trans marked.mixed) loses.orderly (loses.homed marked.homed)
    (within_runs (fun i listed => by rw [works.verified]; exact inside i ((member i).mp listed).1))
  have whole := loses.trans kept
  rw [List.append_nil] at whole
  refine marked.step (whole.restored (fun i lost => ?_)) (works.trans more)
  by_cases still : retired.1.covered i
  · exact kept.kept still
  · exact own i (by rw [indices_runs]; exact (member i).mpr ⟨lost,still⟩)
theorem judge_covered (now : Nat) (sources : List Source) : ∀ {t : Transfer}, Covered n t →
    Covered n (judge now sources t) := by
  induction sources with
  | nil =>
    intro t covered
    have ended := endgame_covered covered now
    exact ended.step (rebalanceOrigin_keeps ended.orderly now) (rebalanceOrigin_works _ now)
  | cons s rest ih =>
    intro t covered
    unfold judge
    split_ifs
    · exact covered
    · exact ih (abandon_covered covered now s)
    · exact ih (covered.step (modify_keeps covered.orderly s (fun _ => ⟨rfl,rfl,rfl,rfl⟩)) (modify_works t s _))
theorem tick_settled (settled : Settled n t) (now : Nat) : Settled n (t.tick now) := by
  unfold tick
  by_cases concluded : t.finished = true
  · rw [if_pos concluded]; exact settled
  have covered := settled.2 (by simpa using concluded)
  rw [if_neg concluded,if_neg (by simp [covered.mixed])]
  split_ifs
  · exact (reachFloor_covered covered now).settled
  · exact (judge_covered now _ covered).settled
theorem progress_settled (settled : Settled n t) (now : Nat) (s : Source) (received : Nat) :
    Settled n (t.progress now s received) := by
  unfold progress
  rw [if_neg (by simp [settled.1])]
  by_cases concluded : t.finished = true ∨ t.floorReached = true
  · rw [if_pos concluded]; exact settled
  rw [if_neg concluded]
  have covered := settled.2 (by simpa using (not_or.mp concluded).1)
  have seen : Covered n { t with lanes := t.lanes.modify s (fun lane => lane.progressed now received) } :=
    covered.step (modify_keeps covered.orderly s (fun _ => ⟨rfl,rfl,rfl,rfl⟩)) (modify_works t s _)
  cases t.lanes.get? s with
  | none => exact settled
  | some lane =>
    dsimp only
    split_ifs
    · exact settled
    · exact (abandon_covered seen now s).settled
    · exact seen.settled

/-! ### A response -/

/-- A mixed transfer that runs while a response of one source is handled: the
    pieces taken out of flight there may be uncovered, and its queue may wait. -/
structure Handling (n : Nat) (t : Transfer) (source : Source) (taken : List Nat) : Prop where
  length : t.verified.length = n
  mixed : t.peerOnly = false
  running : t.finished = false
  orderly : Orderly t
  homed : Homed t
  busy : ∀ s, s ≠ source → Busy t s
  covers : ∀ i < t.verified.length, t.covered i ∨ i ∈ taken

theorem Handling.step {t t' : Transfer} {source : Source} {taken : List Nat} (handling : Handling n t source taken)
    (keeps : Keeps t t') (works : Works t t') : Handling n t' source taken where
  length := (congrArg List.length works.verified).trans handling.length
  mixed := works.peerOnly.trans handling.mixed
  running := works.finished.trans handling.running
  orderly := keeps.orderly
  homed := keeps.homed handling.homed
  busy s other := keeps.busy s (handling.busy s other)
  covers i inside := (handling.covers i (by rwa [works.verified] at inside)).imp_left keeps.kept
theorem answered_work {lane : Lane} {range r : PieceRange} (member : r ∈ (lane.answered range).work) :
    r ∈ lane.work := by
  refine List.mem_append.mpr ((List.mem_append.mp member).imp_left (fun flight => ?_))
  obtain ⟨sent,listed,rfl⟩ := List.mem_map.mp flight
  exact List.mem_map_of_mem (List.mem_of_mem_eraseP listed)
theorem answered_orderly (orderly : Orderly t) (source : Source) (range : PieceRange) :
    Orderly { t with lanes := t.lanes.modify source (fun lane => lane.answered range) } := by
  have stems : ∀ s lane', (t.lanes.modify source (fun lane => lane.answered range)).get? s = some lane' →
      ∃ lane, t.lanes.get? s = some lane ∧ (∀ r ∈ lane'.work, r ∈ lane.work) ∧ lane'.retired = lane.retired ∧
        lane'.estimate = lane.estimate := by
    intro s lane' found
    rw [OrderedMap.get?_modify] at found
    split_ifs at found
    · obtain ⟨lane,old,rfl⟩ := Option.map_eq_some_iff.mp found
      exact ⟨lane,old,fun r => answered_work,rfl,rfl⟩
    · exact ⟨lane',found,fun r h => h,rfl,rfl⟩
  refine ⟨?_,?_,?_⟩
  · intro s lane' found r member
    obtain ⟨lane,old,fewer,_,_⟩ := stems s lane' found
    exact orderly.within s lane old r (fewer r member)
  · intro s lane' found gone
    obtain ⟨lane,old,fewer,retired,_⟩ := stems s lane' found
    have none := orderly.gone s lane old (retired ▸ gone)
    rw [List.eq_nil_iff_forall_not_mem]
    intro r member
    have listed := fewer r member
    rw [none] at listed
    cases listed
  · intro s lane' found
    obtain ⟨lane,old,_,_,estimate⟩ := stems s lane' found
    rw [estimate]
    exact orderly.keyed s lane old
theorem take_handling (covered : Covered n t) (source : Source) (range : PieceRange) :
    Handling n { t with lanes := t.lanes.modify source (fun lane => lane.answered range) } source range.indices := by
  have others : ∀ s, s ≠ source →
      (t.lanes.modify source (fun lane => lane.answered range)).get? s = t.lanes.get? s :=
    fun s differs => OrderedMap.get?_modify_of_ne _ _ differs
  have rest : ∀ (lane : Lane) (i : Nat), i ∈ indices lane.work →
      i ∈ indices (lane.answered range).work ∨ i ∈ range.indices := by
    intro lane i member
    obtain ⟨r,listed,low,high⟩ := mem_indices.mp member
    by_cases taken : r = range
    · subst taken; exact .inr (mem_range_indices.mpr ⟨low,high⟩)
    · refine .inl (mem_indices.mpr ⟨r,?_,low,high⟩)
      refine List.mem_append.mpr ((List.mem_append.mp listed).imp_left (fun flight => ?_))
      obtain ⟨sent,inFlight,rfl⟩ := List.mem_map.mp flight
      exact List.mem_map_of_mem ((List.mem_eraseP_of_neg (by simpa using taken)).mpr inFlight)
  refine ⟨covered.length,covered.mixed,covered.running,answered_orderly covered.orderly source range,?_,?_,?_⟩
  · obtain ⟨lane,found,use⟩ := covered.homed
    by_cases same : Source.origin = source
    · subst same
      exact ⟨lane.answered range,by simp [found],use⟩
    · exact ⟨lane,by rw [others _ same]; exact found,use⟩
  · intro s differs lane' found
    exact covered.busy s lane' (by rw [← others s differs]; exact found)
  · intro i inside
    rcases covered_iff.mp (covered.covers i inside) with done | ⟨s,lane,found,holds⟩
    · exact .inl (covered_iff.mpr (.inl done))
    by_cases same : s = source
    · subst same
      rw [Lane.holds_iff] at holds
      rcases rest lane i holds.2 with kept | taken
      · exact .inl (covered_iff.mpr (.inr ⟨s,lane.answered range,by simp [found],Lane.holds_iff.mpr ⟨holds.1,kept⟩⟩))
      · exact .inr taken
    · exact .inl (covered_iff.mpr (.inr ⟨s,lane,by rw [others s same]; exact found,holds⟩))
theorem check_handling {c c' : Checked} {taken pieces : List Nat} (checks : Checks pieces c c')
    (frame : c'.transfer = { c.transfer with data := c'.transfer.data, verified := c'.transfer.verified })
    (length : c'.transfer.verified.length = c.transfer.verified.length)
    (handling : Handling n c.transfer source taken) : Handling n c'.transfer source taken := by
  have lanes : c'.transfer.lanes = c.transfer.lanes := by rw [frame]
  refine ⟨length.trans handling.length,?_,?_,⟨?_,?_,?_⟩,?_,?_,?_⟩
  · rw [frame]; exact handling.mixed
  · rw [frame]; exact handling.running
  · rw [lanes,length]; exact handling.orderly.within
  · rw [lanes]; exact handling.orderly.gone
  · rw [lanes]; exact handling.orderly.keyed
  · unfold Homed; rw [lanes]; exact handling.homed
  · intro s other; unfold Busy; rw [lanes]; exact handling.busy s other
  · intro i inside
    rw [length] at inside
    refine (handling.covers i inside).imp_left (fun covered => ?_)
    rw [covered_iff] at covered ⊢
    rw [lanes]
    exact covered.imp_left (checks.grows i)

theorem badPiece_settled {taken : List Nat} (handling : Handling n t source taken)
    (missing : ∃ i < t.verified.length, t.isVerified i = false) (now : Nat) : Settled n (t.badPiece now source) := by
  cases source with
  | origin => exact fail_settled handling.mixed
  | peer p =>
    have pushed := handling.step (push_keeps handling.orderly (.ban p)) (push_works t rfl)
    obtain ⟨loses,inside,idle⟩ := retire_loses pushed.orderly (s := .peer p) rfl
    have told : Works t (t.push (.ban p)) := push_works t rfl
    have works := told.trans (retire_works (t.push (.ban p)) (.peer p))
    have count : (t.push (.ban p)).verified.length = t.verified.length := rfl
    unfold badPiece
    dsimp only
    generalize (t.push (.ban p)).retire (.peer p) = retired at loses inside idle works ⊢
    set needed := (retired.2 ++ (List.range t.verified.length).filter (fun index =>
      ¬ retired.1.covered index ∧ index ∉ retired.2)).insertionSort (· ≤ ·) with named
    have member : ∀ i, i ∈ needed ↔ i ∈ retired.2 ∨ i < t.verified.length ∧ ¬ retired.1.covered i ∧ i ∉ retired.2 := by
      intro i
      rw [named,List.mem_insertionSort,List.mem_append,List.mem_filter,List.mem_range,decide_eq_true_eq]
    have mixed : retired.1.peerOnly = false := works.peerOnly.trans handling.mixed
    obtain ⟨kept,own⟩ := assign_keeps mixed (works.finished.trans handling.running)
      loses.orderly (loses.homed pushed.homed) now needed (fun i listed => by
        rw [works.verified]
        rcases (member i).mp listed with given | ⟨low,_⟩
        · exact inside i given
        · exact low)
    have all := works.trans (assign_works mixed now needed)
    refine Covered.settled ⟨(congrArg List.length all.verified).trans handling.length,all.peerOnly.trans handling.mixed,
      all.finished.trans handling.running,kept.orderly,kept.homed (loses.homed pushed.homed),?_,?_,?_⟩
    · intro s
      by_cases same : s = .peer p
      · subst same; exact kept.busy _ idle
      · exact kept.busy s (loses.busy s (pushed.busy s same))
    · intro i low
      rw [all.verified] at low
      by_cases still : retired.1.covered i
      · exact kept.kept still
      · by_cases given : i ∈ retired.2
        · exact own i ((member i).mpr (.inl given))
        · exact own i ((member i).mpr (.inr ⟨low,still,given⟩))
    · obtain ⟨i,low,fresh⟩ := missing
      exact ⟨i,by rwa [all.verified],(all.isVerified i).trans fresh⟩

theorem dropLane_step {taken : List Nat} (handling : Handling n t source taken)
    (now : Nat) (peer : s.isPeer = true) :
    Keeps t (dropLane now t s) ∧ Works t (dropLane now t s) := by
  have told := cancelSource_works t s
  have pushed := handling.step (cancelSource_keeps handling.orderly s) told
  exact ⟨Loses.then (cancelSource_keeps handling.orderly s)
    (reassign_keeps pushed.mixed pushed.running pushed.orderly pushed.homed now peer),
    told.trans (reassign_works pushed.mixed now s)⟩
theorem dropRedundant_handling {taken : List Nat}
    (handling : Handling n t source taken) (now : Nat) (winner : Source) :
    Handling n (t.dropRedundant now winner) source taken ∧ Works t (t.dropRedundant now winner) := by
  unfold dropRedundant
  dsimp only
  have peers : ∀ s ∈ (t.lanes.entries.filter (fun entry => entry.1 ≠ winner ∧ entry.1.isPeer ∧
      entry.2.retired = false ∧ entry.2.inFlight ≠ [] ∧
        ∀ sent ∈ entry.2.inFlight, ∀ index ∈ sent.1.indices, t.isVerified index)).map (·.1), s.isPeer = true := by
    intro s member
    obtain ⟨entry,listed,rfl⟩ := List.mem_map.mp member
    have kept := (List.mem_filter.mp listed).2
    simp only [decide_eq_true_eq] at kept
    exact kept.2.1
  revert peers
  generalize (t.lanes.entries.filter _).map _ = sources
  intro peers
  induction sources generalizing t with
  | nil => exact ⟨handling,Works.refl t⟩
  | cons s rest ih =>
    obtain ⟨kept,works⟩ := dropLane_step handling now (peers s (by simp))
    obtain ⟨later,more⟩ := ih (handling.step kept works) (fun s member => peers s (by simp [member]))
    exact ⟨later,works.trans more⟩
theorem measure_keeps (orderly : Orderly t) (now : Nat) (s : Source) (sent : Nat)
    (first : Option Nat) (bytes : Nat) : Keeps t (t.measure now s sent first bytes) := by
  unfold measure
  split
  · exact Loses.refl orderly
  · dsimp only
    split_ifs
    · exact Loses.refl orderly
    · exact modify_keeps orderly s (fun _ => ⟨rfl,rfl,rfl,rfl⟩)

section
variable (sha256 : List UInt8 → Digest)

theorem finish_settled (mixed : t.peerOnly = false) : Settled n (t.finish sha256) := by
  unfold finish
  split_ifs
  · exact fail_settled mixed
  · exact ⟨mixed,fun running => by cases running⟩
/-- A response without a bad piece: either every piece is now verified, or the
    source goes on with its queue. -/
theorem accept_settled {c : Checked} {taken : List Nat} (handling : Handling n c.transfer source taken)
    (verified : ∀ i ∈ taken, c.transfer.isVerified i = true) (now sent : Nat) (first : Option Nat) (bytes : Nat) :
    Settled n (accept sha256 c now source sent first bytes) := by
  unfold accept
  dsimp only
  set probed : Transfer := if c.fresh then c.transfer.endProbe source else c.transfer with names
  have still : Keeps c.transfer probed ∧ Works c.transfer probed := by
    rw [names]
    split_ifs
    · exact ⟨Loses.same rfl rfl handling.orderly,endProbe_works _ _⟩
    · exact ⟨Loses.refl handling.orderly,Works.refl _⟩
  have probing := handling.step still.1 still.2
  have measured := probing.step (measure_keeps probing.orderly now source sent first bytes) (measure_works ..)
  obtain ⟨dropped,works⟩ := dropRedundant_handling measured now source
  have all : Works c.transfer ((probed.measure now source sent first bytes).dropRedundant now source) :=
    (still.2.trans (measure_works ..)).trans works
  generalize (probed.measure now source sent first bytes).dropRedundant now source = t at dropped all
  split_ifs with complete
  · exact finish_settled sha256 dropped.mixed
  obtain ⟨kept,idle⟩ := issue_keeps dropped.orderly now source
  have issued := dropped.step kept (issue_works t now source)
  obtain ⟨i,low,fresh⟩ : ∃ i < t.verified.length, t.isVerified i = false := by
    by_contra none
    push Not at none
    refine complete (List.all_eq_true.mpr (fun v member => ?_))
    obtain ⟨i,low,rfl⟩ := List.getElem_of_mem member
    simpa [isVerified,low] using none i low
  have covered : Covered n (t.issue now source) := by
    refine ⟨issued.length,issued.mixed,issued.running,issued.orderly,issued.homed,?_,?_,?_⟩
    · intro s
      by_cases same : s = source
      · rw [same]; exact idle
      · exact issued.busy s same
    · intro j inside
      refine (issued.covers j inside).elim id (fun member => covered_iff.mpr (.inl ?_))
      rw [(issue_works t now source).isVerified,all.isVerified]
      exact verified j member
    · exact ⟨i,by rwa [(issue_works t now source).verified],((issue_works t now source).isVerified i).trans fresh⟩
  rw [refill,if_neg (by simp [covered.mixed])]
  exact (covered.step (rebalanceOrigin_keeps covered.orderly now) (rebalanceOrigin_works _ now)).settled
theorem delivered_settled (settled : Settled n t) (now : Nat) (source : Source) (range : PieceRange)
    (bytes : List UInt8) : Settled n (t.delivered sha256 now source range bytes) := by
  unfold delivered
  rw [if_neg (by simp [settled.1])]
  by_cases concluded : t.finished = true
  · rw [if_pos concluded]; exact settled
  rw [if_neg concluded]
  have covered := settled.2 (by simpa using concluded)
  cases found : t.lanes.get? source with
  | none => exact settled
  | some lane =>
    cases seen : lane.inFlight.find? (·.1 = range) with
    | none => simp only [seen]; exact settled
    | some sent =>
      simp only [seen]
      split_ifs with long bad
      · exact failed_settled covered now source
      all_goals
        have inFlight : range ∈ lane.work := by
          have same : sent.1 = range := by simpa using List.find?_some seen
          rw [← same]
          exact List.mem_append_left _ (List.mem_map_of_mem (List.mem_of_find?_eq_some seen))
        have within := covered.orderly.within source lane found range inFlight
        have handling := take_handling covered source range
        have checks := checkPieces_checks sha256 bytes (t.pieceRangeBytes range).1 range.indices
          ⟨{ t with lanes := t.lanes.modify source (fun lane => lane.answered range) },false,false⟩
          List.nodup_range' (fun i member => by
            have := (mem_range_indices.mp member).2
            exact lt_of_lt_of_le this within.2)
        obtain ⟨frame,length⟩ := checkPieces_frame sha256 bytes (t.pieceRangeBytes range).1 range.indices
          ⟨{ t with lanes := t.lanes.modify source (fun lane => lane.answered range) },false,false⟩
        have after := check_handling checks frame length handling
      · obtain ⟨i,member,wrong⟩ := (checks.bad bad).resolve_left (by simp)
        refine badPiece_settled after ⟨i,?_,wrong⟩ now
        rw [length]
        exact lt_of_lt_of_le (mem_range_indices.mp member).2 within.2
      · exact accept_settled sha256 after (checks.good (by simpa using bad)).2 now _ _ _

/-! ### Starting, and whole runs -/

theorem openLanes_keeps (now : Nat) (estimates : List Estimate) : ∀ {t : Transfer}, Orderly t →
    Keeps t (estimates.foldl (fun t estimate => t.openLane now estimate) t) ∧
    Works t (estimates.foldl (fun t estimate => t.openLane now estimate) t) ∧
    (∀ s, Live t s → Live (estimates.foldl (fun t estimate => t.openLane now estimate) t) s) ∧
      ∀ e ∈ estimates, ∃ lane, (estimates.foldl (fun t estimate => t.openLane now estimate) t).lanes.get? e.source =
        some lane := by
  have stays : ∀ (estimates : List Estimate) (t : Transfer) (s : Source) (lane : Lane), t.lanes.get? s = some lane →
      (estimates.foldl (fun t estimate => t.openLane now estimate) t).lanes.get? s = some lane := by
    intro estimates
    induction estimates with
    | nil => intro t s lane found; exact found
    | cons e rest ih =>
      intro t s lane found
      refine ih _ s lane ?_
      rw [openLane_get,found]
      split_ifs <;> rfl
  induction estimates with
  | nil => intro t orderly; exact ⟨Loses.refl orderly,Works.refl t,fun _ h => h,by simp⟩
  | cons e rest ih =>
    intro t orderly
    have opened := openLane_keeps orderly now e
    obtain ⟨kept,works,live,lanes⟩ := ih opened.orderly
    refine ⟨Loses.then opened kept,(openLane_works t now e).trans works,
      fun s use => live s (openLane_live now e use),?_⟩
    intro d member
    rcases List.mem_cons.mp member with rfl | tail
    · exact ⟨_,stays rest _ _ _ (by rw [openLane_get,if_pos rfl])⟩
    · exact lanes d tail
theorem openSources_mixed (now : Nat) (estimates : List Estimate) : ∀ {t : Transfer}, t.peerOnly = false →
    estimates.foldl (openSource now) t = estimates.foldl (fun t estimate => t.openLane now estimate) t := by
  induction estimates with
  | nil => intro t _; rfl
  | cons e rest ih =>
    intro t mixed
    rw [List.foldl_cons,List.foldl_cons,openSource,if_neg (by simp [mixed])]
    exact ih mixed
/-- A new mixed transfer, before its start. -/
structure Fresh (n : Nat) (t : Transfer) : Prop where
  length : t.verified.length = n
  mixed : t.peerOnly = false
  running : t.finished = false
  lanes : t.lanes = .empty
  pieces : 0 < t.verified.length
  verified : ∀ i, t.isVerified i = false

theorem start_covered (fresh : Fresh n t) (now : Nat) (peers : List Estimate) {origin : Estimate}
    (fromOrigin : origin.source = .origin) (first rate : Option ℚ) (probes : List Nat) :
    Covered n (t.startWithProbePeers now peers origin first rate probes) := by
  unfold startWithProbePeers startInner
  simp only [fresh.mixed,Bool.false_eq_true,if_false,false_and]
  have none : ∀ s, t.lanes.get? s = none := fun s => by rw [fresh.lanes]; rfl
  set listed := ((probes.map Source.peer).filter (fun source => ∃ peer ∈ peers, peer.source = source)).toFinset
  set begun : Transfer := { t with
    peerOnly := false, started := true, sharedFirstByteMs := first, sharedRate := rate, probePeers := listed
    probeAvailable := listed } with begins
  have orderly : Orderly begun := by
    refine ⟨?_,?_,?_⟩ <;> intro s lane found <;> cases (none s).symm.trans found
  rw [openSources_mixed now (peers ++ (some origin).toList) (t := begun) rfl]
  obtain ⟨kept,works,live,opened⟩ := openLanes_keeps now (peers ++ (some origin).toList) orderly
  generalize (peers ++ (some origin).toList).foldl (fun t estimate => t.openLane now estimate) begun = t' at *
  have homed : Homed t' := by
    obtain ⟨lane,found⟩ := opened origin (by simp)
    rw [fromOrigin] at found
    exact ⟨lane,found,live .origin (fun lane found => by cases (none .origin).symm.trans found) lane found⟩
  have mixed : t'.peerOnly = false := works.peerOnly
  have running : t'.finished = false := works.finished.trans fresh.running
  have count : t'.verified.length = t.verified.length := congrArg List.length works.verified
  obtain ⟨assigned,all⟩ := assign_keeps mixed running kept.orderly homed now
    (List.range t'.verified.length) (fun i member => List.mem_range.mp member)
  have more := assign_works mixed now (List.range t'.verified.length)
  refine ⟨(congrArg List.length more.verified).trans (count.trans fresh.length),more.peerOnly.trans mixed,
    more.finished.trans running,assigned.orderly,assigned.homed homed,?_,?_,?_⟩
  · refine fun s => assigned.busy s (kept.busy s ?_)
    intro lane found
    cases (none s).symm.trans found
  · intro i inside
    rw [more.verified] at inside
    exact all i (List.mem_range.mpr inside)
  · refine ⟨0,by rw [more.verified,count]; exact fresh.pieces,?_⟩
    rw [more.isVerified,works.isVerified]
    exact fresh.verified 0
theorem handle_settled (settled : Settled n t) (event : Event) (later : event.starts = false) :
    Settled n (handle sha256 t event) := by
  cases event with
  | start => cases later
  | startPeerOnly => cases later
  | delivered now source range bytes => exact delivered_settled sha256 settled now source range bytes
  | failed now source =>
    by_cases concluded : t.finished = true
    · simpa [handle,failed,concluded] using settled
    · exact failed_settled (settled.2 (by simpa using concluded)) now source
  | progress now source received => exact progress_settled settled now source received
  | tick now => exact tick_settled settled now
theorem drain_settled (settled : Settled n t) : Settled n t.drainCommands.2 := by
  refine ⟨settled.1,fun running => ?_⟩
  have covered := settled.2 running
  exact ⟨covered.length,covered.mixed,covered.running,
    ⟨covered.orderly.within,covered.orderly.gone,covered.orderly.keyed⟩,covered.homed,covered.busy,covered.covers,
    covered.missing⟩
theorem run_settled (events : List Event) : ∀ {s : Shell}, Settled n s.transfer →
    (∀ event ∈ events, event.starts = false) → Settled n (Shell.run sha256 s events).transfer := by
  induction events with
  | nil => intro s settled _; exact settled
  | cons event rest ih =>
    intro s settled later
    refine ih (s := Shell.step sha256 s event) ?_ (fun e member => later e (by simp [member]))
    exact drain_settled (handle_settled sha256 settled event (later event (by simp)))

theorem Covered.outstanding (covered : Covered n t) :
    ∃ s lane, t.lanes.get? s = some lane ∧ lane.retired = false ∧ lane.inFlight ≠ [] := by
  obtain ⟨i,inside,fresh⟩ := covered.missing
  rcases covered_iff.mp (covered.covers i inside) with done | ⟨s,lane,found,holds⟩
  · rw [fresh] at done; cases done
  obtain ⟨use,member⟩ := Lane.holds_iff.mp holds
  refine ⟨s,lane,found,use,?_⟩
  by_cases queued : lane.queue = []
  · rintro none
    simp [Lane.work,queued,none] at member
  · exact covered.busy s lane found queued

theorem new_fresh {config : TransferConfig} {size : Nat} {digest : String} {pieces : List String} {deadline : Nat}
    (made : new config size digest pieces deadline = some t ∨
      (new config size digest pieces deadline).bind withExclusiveOrigin = some t) : Fresh pieces.length t := by
  have plain : ∀ {t}, new config size digest pieces deadline = some t →
      Fresh pieces.length t ∧ t.started = false := by
    intro t made
    unfold new at made
    cases counted : pieceCount size with
    | none => simp [counted] at made
    | some count =>
      simp only [counted,Option.bind_eq_bind,Option.bind_some] at made
      split_ifs at made with fits
      simp only [Option.bind_eq_some_iff] at made
      obtain ⟨hashes,_,whole,_,same⟩ := made
      cases same
      have length : pieces.length = count := not_not.mp fits
      refine ⟨⟨by simp [length],rfl,rfl,rfl,by simpa using pieceCount_pos counted,fun i => ?_⟩,rfl⟩
      unfold isVerified
      dsimp only
      rw [List.getD_eq_getElem?_getD,List.getElem?_replicate]
      split_ifs <;> rfl
  rcases made with made | made
  · exact (plain made).1
  · obtain ⟨t',first,second⟩ := Option.bind_eq_some_iff.mp made
    obtain ⟨fresh,_⟩ := plain first
    unfold withExclusiveOrigin at second
    split_ifs at second
    cases second
    exact ⟨fresh.length,fresh.mixed,fresh.running,fresh.lanes,fresh.pieces,fresh.verified⟩
/-- A mixed transfer, with an exclusive origin or not, that is started once and
    then told anything in any order: while it runs, every piece is verified or held
    by a lane in use, no lane in use waits with a queue and no request, and some
    request is outstanding. -/
theorem mixed_run_covered {config : TransferConfig} {size : Nat} {digest : String} {pieces : List String}
    {deadline : Nat} {t : Transfer} (made : new config size digest pieces deadline = some t ∨
      (new config size digest pieces deadline).bind withExclusiveOrigin = some t)
    (now : Nat) (peers : List Estimate) {origin : Estimate} (fromOrigin : origin.source = .origin)
    (first rate : Option ℚ) (probes : List Nat) (events : List Event) (later : ∀ e ∈ events, e.starts = false) :
    let t' := (Shell.run sha256 ⟨t,[]⟩ (.start now peers origin first rate probes :: events)).transfer
    t'.finished = false →
      (∀ i < pieces.length, t'.isVerified i = true ∨ ∃ s lane, t'.lanes.get? s = some lane ∧ lane.retired = false ∧
        ∃ range ∈ lane.inFlight.map (·.1) ++ lane.queue, range.start ≤ i ∧ i < range.stop) ∧
      (∀ s lane, t'.lanes.get? s = some lane → lane.retired = false → lane.queue ≠ [] → lane.inFlight ≠ []) ∧
      ∃ s lane, t'.lanes.get? s = some lane ∧ lane.retired = false ∧ lane.inFlight ≠ [] := by
  intro t' running
  have begun := start_covered (new_fresh made) now peers fromOrigin first rate probes
  have settled : Settled pieces.length t' := run_settled sha256 events
    (s := Shell.step sha256 ⟨t,[]⟩ (.start now peers origin first rate probes)) (drain_settled begun.settled) later
  have covered := settled.2 running
  refine ⟨?_,fun s lane found _ => covered.busy s lane found,covered.outstanding⟩
  intro i inside
  exact covered_iff.mp (covered.covers i (by rwa [covered.length]))

def zeroDigest : String := "0000000000000000000000000000000000000000000000000000000000000000"
/-- A peer fails before it sent anything: its only piece is then on origin. -/
theorem mixed_run_covered_after_failure : ∃ t, new ⟨1,0⟩ 1 zeroDigest [zeroDigest] 1000 = some t ∧
    let t' := (Shell.run (fun _ => []) ⟨t,[]⟩ [.start 0 [⟨.peer 1,some 5,some 100⟩] ⟨.origin,none,none⟩ none none [],
      .failed 3 (.peer 1)]).transfer
    t'.finished = false ∧
      (∀ i < [zeroDigest].length, t'.isVerified i = true ∨ ∃ s lane, t'.lanes.get? s = some lane ∧
        lane.retired = false ∧ ∃ range ∈ lane.inFlight.map (·.1) ++ lane.queue, range.start ≤ i ∧ i < range.stop) ∧
      (∀ s lane, t'.lanes.get? s = some lane → lane.retired = false → lane.queue ≠ [] → lane.inFlight ≠ []) ∧
      ∃ s lane, t'.lanes.get? s = some lane ∧ lane.retired = false ∧ lane.inFlight ≠ [] := by
  obtain ⟨t,made⟩ := Option.isSome_iff_exists.mp
    (by decide +kernel : (new ⟨1,0⟩ 1 zeroDigest [zeroDigest] 1000).isSome = true)
  have evaluated : (new ⟨1,0⟩ 1 zeroDigest [zeroDigest] 1000).map (fun t => (Shell.run (fun _ => []) ⟨t,[]⟩
      [.start 0 [⟨.peer 1,some 5,some 100⟩] ⟨.origin,none,none⟩ none none [],.failed 3 (.peer 1)]).transfer.finished) =
        some false := by decide +kernel
  rw [made] at evaluated
  have running := Option.some.inj evaluated
  exact ⟨t,made,running,mixed_run_covered (fun _ => []) (.inl made) 0 [⟨.peer 1,some 5,some 100⟩] rfl none none []
    [.failed 3 (.peer 1)] (by decide) running⟩

end
end Transfer
end RelaySwarm.Transfers
