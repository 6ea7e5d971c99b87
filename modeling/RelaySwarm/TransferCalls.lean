import RelaySwarm.TransferActs

/-!
The calls of the shell as acts on the lanes. Assigning, refilling, retiring and
rebalancing on a transfer that runs are runs of acts (`assign_acts`,
`refillPeerOnly_course`, `rebalanceOrigin_acts`), so that a call is a run of acts
but for three moments: the response it checks, the endgame of a tick, and the end
(`Course`).
-/
namespace RelaySwarm.Transfers
open Pieces Planning
namespace Transfer

/-! ### Giving pieces that nothing covers -/

variable {t t' : Transfer} {s : Source} {i : Nat} {lane : Lane}
theorem Grows.uncovered {extra : List Nat} (grows : Grows t t' s extra)
    (live : Live t s) (bare : ¬ t.covered i) (other : i ∉ extra) : ¬ t'.covered i := by
  obtain ⟨lane,lane',found,found',retired,_,pieces,_⟩ := grows.here
  intro covered
  rcases covered_iff.mp covered with done | ⟨s',held,lies,holds⟩
  · exact bare (covered_iff.mpr (.inl (by simpa [isVerified,grows.verified] using done)))
  by_cases same : s' = s
  · subst same
    rw [found'] at lies
    cases lies
    have member := (Lane.holds_iff.mp holds).2
    rw [pieces] at member
    rcases List.mem_append.mp member with old | new
    · exact bare (covered_iff.mpr (.inr ⟨s',lane,found,Lane.holds_iff.mpr ⟨live lane found,old⟩⟩))
    · exact other new
  · exact bare (covered_iff.mpr (.inr ⟨s',held,by rw [← grows.others s' same]; exact lies,holds⟩))
theorem Fit.bare (orderly : Orderly t) (found : t.lanes.get? s = some lane)
    (use : lane.retired = false) {ranges : List PieceRange} (within : Within t.verified.length ranges)
    (once : (indices ranges).Nodup) (bare : ∀ i ∈ indices ranges, ¬ t.covered i) : Fit t lane ranges := by
  refine ⟨within,once,?_,?_,?_⟩
  · intro i member
    have := bare i member
    rw [covered_iff] at this
    simpa using (not_or.mp this).1
  · intro i member held
    exact bare i member (covered_iff.mpr (.inr ⟨s,lane,found,Lane.holds_iff.mpr ⟨use,held⟩⟩))
  · intro _ i member s' other here held
    refine bare i member (covered_iff.mpr (.inr ⟨s',other,here,Lane.holds_iff.mpr ⟨?_,held⟩⟩))
    by_contra gone
    rw [orderly.gone s' other here (by simpa using gone)] at held
    cases held
theorem Grows.inUse {extra : List Nat} (grows : Grows t t' s extra) {s' : Source}
    (used : InUse t s') : InUse t' s' := by
  obtain ⟨lane,found,use⟩ := used
  by_cases same : s' = s
  · subst same
    obtain ⟨old,new,before,after,retired,_⟩ := grows.here
    rw [found] at before
    cases before
    exact ⟨new,after,retired.trans use⟩
  · exact ⟨lane,by rw [grows.others s' same]; exact found,use⟩
theorem Quiet.inUse (quiet : Quiet t t') : InUse t' s ↔ InUse t s := by
  constructor
  · rintro ⟨lane',found,use⟩
    obtain ⟨lane,old,post⟩ := quiet.before found
    exact ⟨lane,old,(Lane.post_eq post).2.2.1.trans use⟩
  · rintro ⟨lane,found,use⟩
    obtain ⟨lane',new,post⟩ := quiet.after found
    exact ⟨lane',new,(Lane.post_eq post).2.2.1.trans use⟩
theorem Quiet.covered (quiet : Quiet t t') : t'.covered i ↔ t.covered i := by
  rw [covered_iff,covered_iff]
  have verified : t'.isVerified i = t.isVerified i := quiet.works.isVerified i
  rw [verified]
  refine or_congr Iff.rfl ⟨?_,?_⟩
  · rintro ⟨s,lane',found,holds⟩
    obtain ⟨lane,old,post⟩ := quiet.before found
    refine ⟨s,lane,old,?_⟩
    rw [Lane.holds_iff] at holds ⊢
    rw [Lane.post_work post,(Lane.post_eq post).2.2.1]
    exact holds
  · rintro ⟨s,lane,found,holds⟩
    obtain ⟨lane',new,post⟩ := quiet.after found
    refine ⟨s,lane',new,?_⟩
    rw [Lane.holds_iff] at holds ⊢
    rw [Lane.post_work post,(Lane.post_eq post).2.2.1]
    exact holds

/-! ### Assigning in a mixed transfer -/

theorem openLane_present {t : Transfer} {estimate : Estimate} {lane : Lane}
    (found : t.lanes.get? estimate.source = some lane) (now : Nat) : t.openLane now estimate = t := by
  unfold openLane
  rw [OrderedMap.orInsert_present found]
theorem takeAssignment_present {a : Assignment}
    (found : t.lanes.get? a.source = some lane) (now : Nat) : takeAssignment now t a =
      (t.extendQueue a.source a.ranges (fun finishAt => max finishAt (projection now a))).issue now a.source := by
  unfold takeAssignment
  rw [@openLane_present _ ⟨a.source,none,none⟩ _ found]
theorem issue_marks (t : Transfer) (now : Nat) (s : Source) (marks : Finset Source) (late : Bool) :
    ({ t with probeAvailable := marks, late := late } : Transfer).issue now s =
      { t.issue now s with probeAvailable := marks, late := late } := by
  unfold issue
  dsimp only
  cases t.lanes.get? s with
  | none => rfl
  | some lane =>
    dsimp only
    by_cases held : t.exclusiveOrigin ∧ s = .origin ∧ lane.inFlight ≠ []
    · rw [if_pos held,if_pos held]
    · rw [if_neg held,if_neg held]
      rfl
theorem takeAssignment_marks (t : Transfer) (now : Nat) (a : Assignment) (marks : Finset Source) (late : Bool) :
    takeAssignment now { t with probeAvailable := marks, late := late } a =
      { takeAssignment now t a with probeAvailable := marks, late := late } :=
  issue_marks ((t.openLane now ⟨a.source,none,none⟩).extendQueue a.source a.ranges
    (fun finishAt => max finishAt (projection now a))) now a.source marks late

/-- Assignments that use up allowances: one to a probe uses its allowance and is of
    one piece; the others go to sources that are no probes. -/
inductive Tickets (probes : Finset Source) : Finset Source → List Assignment → Finset Source → Prop
  | nil (left : Finset Source) : Tickets probes left [] left
  | trial {a : Assignment} {rest : List Assignment} {had left : Finset Source} {i : Nat}
      (allowed : a.source ∈ had) (one : a.ranges = [⟨i,i+1⟩])
      (later : Tickets probes (had.erase a.source) rest left) : Tickets probes had (a :: rest) left
  | plain {a : Assignment} {rest : List Assignment} {had left : Finset Source} (normal : a.source ∉ probes)
      (later : Tickets probes had rest left) : Tickets probes had (a :: rest) left

theorem Tickets.plains {probes had : Finset Source} {assignments : List Assignment}
    (normal : ∀ a ∈ assignments, a.source ∉ probes) : Tickets probes had assignments had := by
  induction assignments with
  | nil => exact .nil had
  | cons a rest ih => exact .plain (normal a (by simp)) (ih (fun b member => normal b (by simp [member])))
theorem Tickets.append {probes had left last : Finset Source} {first second : List Assignment}
    (one : Tickets probes had first left) (two : Tickets probes left second last) :
    Tickets probes had (first ++ second) last := by
  induction one with
  | nil => exact two
  | trial allowed one _ ih => exact .trial allowed one (ih two)
  | plain normal _ ih => exact .plain normal (ih two)
theorem assignProbes_tickets (t : Transfer) (input : PlanInput) (estimates : List Estimate) :
    ∀ slots needed available, Tickets t.probePeers available
      (t.assignProbes input estimates slots needed available).1
      (t.assignProbes input estimates slots needed available).2.2 := by
  induction estimates with
  | nil => intro slots needed available; exact .nil available
  | cons estimate rest ih =>
    intro slots needed available
    unfold assignProbes
    cases needed with
    | nil => exact .nil available
    | cons index later =>
      dsimp only
      split_ifs with full probe
      · exact .nil available
      · exact .trial probe.2 rfl (ih _ _ _)
      · exact ih _ _ _
theorem assignable_found (keyed : ∀ s lane, t.lanes.get? s = some lane → lane.estimate.source = s)
    {now : Nat} {e : Estimate} (member : e ∈ t.assignable now) : InUse t e.source := by
  obtain ⟨entry,listed,same⟩ := List.mem_map.mp member
  obtain ⟨found,_,use⟩ := mem_livePeers.mp listed
  have key : e.source = entry.1 := by
    rw [← same,← keyed _ _ found]
    dsimp only
    split_ifs <;> rfl
  rw [key]
  exact ⟨entry.2,found,use⟩
theorem Ready.origin_used (ready : Ready t) (mixed : t.peerOnly = false) : InUse t .origin :=
  ready.homed mixed
theorem assignPlan_tickets (ready : Ready t) (mixed : t.peerOnly = false) (now : Nat)
    (needed : List Nat) :
    Tickets t.probePeers t.probeAvailable (t.assignPlan now needed).1.assignments (t.assignPlan now needed).2 ∧
      ∀ a ∈ (t.assignPlan now needed).1.assignments, InUse t a.source := by
  obtain ⟨home,found,use⟩ := ready.origin_used mixed
  have origin : home.estimate.source = .origin := ready.orderly.keyed _ _ found
  have sources : ∀ input : PlanInput, (∀ e ∈ input.peers, e ∈ t.assignable now) →
      input.origin = (t.lanes.get? .origin).map (·.estimate) → ∀ a ∈ (plan input).assignments,
        (∃ e ∈ input.peers, a.source = e.source) ∨ a.source = .origin := by
    intro input offered stems a member
    rcases (plan_proper input).2 a member with ⟨e,listed,same⟩ | ⟨e,planned,same⟩
    · exact .inl ⟨e,listed,same⟩
    · rw [stems,found] at planned
      cases planned
      exact .inr (same.trans origin)
  have used : ∀ {source : Source}, (∃ e ∈ t.assignable now, source = e.source) ∨ source = .origin → InUse t source := by
    rintro source (⟨e,listed,rfl⟩ | rfl)
    · exact assignable_found ready.orderly.keyed listed
    · exact ⟨home,found,use⟩
  unfold assignPlan
  dsimp only
  by_cases noProbes : t.probePeers = ∅
  · rw [if_pos noProbes]
    refine ⟨Tickets.plains (by simp [noProbes]),fun a member => used ?_⟩
    exact sources _ (fun _ h => h) rfl a member
  rw [if_neg noProbes]
  have normal : ∀ (slots : Nat) (e : Estimate), e ∈ (if slots = 0 then [] else
      (t.assignable now).filter (fun estimate => estimate.source ∉ t.probePeers)) →
        e ∈ t.assignable now ∧ e.source ∉ t.probePeers := by
    intro slots e listed
    split_ifs at listed
    · cases listed
    · have kept := List.mem_filter.mp listed
      exact ⟨kept.1,by simpa using kept.2⟩
  have tail : ∀ (slots : Nat) (input : PlanInput), input.peers = (if slots = 0 then [] else
      (t.assignable now).filter (fun estimate => estimate.source ∉ t.probePeers)) →
      input.origin = (t.lanes.get? .origin).map (·.estimate) → ∀ a ∈ (plan input).assignments,
        (∃ e ∈ t.assignable now, a.source = e.source ∧ e.source ∉ t.probePeers) ∨ a.source = .origin := by
    intro slots input peers stems a member
    rcases sources input (fun e listed => (normal slots e (by rw [← peers]; exact listed)).1) stems a member with
      ⟨e,listed,same⟩ | same
    · rw [peers] at listed
      exact .inl ⟨e,(normal slots e listed).1,same,(normal slots e listed).2⟩
    · exact .inr same
  refine ⟨(assignProbes_tickets t _ _ _ _ _).append (Tickets.plains (fun a member => ?_)),fun a member => ?_⟩
  · rcases tail _ _ rfl rfl a member with ⟨e,_,same,normal'⟩ | same
    · rw [same]; exact normal'
    · rw [same]; exact ready.unprobed mixed
  · rcases List.mem_append.mp member with probe | rest
    · exact used (.inl ((assignProbes_dealt t _ _ _ _ _).2.2 a probe))
    · rcases tail _ _ rfl rfl a rest with ⟨e,listed,same,_⟩ | same
      · exact used (.inl ⟨e,listed,same⟩)
      · exact used (.inr same)

theorem takeAssignments_acts (now : Nat) (late : Bool) (assignments : List Assignment) :
    ∀ {t : Transfer} {left : Finset Source}, Ready t → Tickets t.probePeers t.probeAvailable assignments left →
      (∀ a ∈ assignments, InUse t a.source ∧ Within t.verified.length a.ranges) → (dealt assignments).Nodup →
      (∀ i ∈ dealt assignments, ¬ t.covered i) →
        Gives t (assignments.foldl (takeAssignment now) { t with probeAvailable := left, late := late }) := by
  induction assignments with
  | nil =>
    intro t left _ tickets _ _ _
    cases tickets
    exact .single (.notes (Quiet.same rfl rfl rfl rfl rfl rfl rfl id))
  | cons a rest ih =>
    intro t left ready tickets usable once bare
    obtain ⟨⟨lane,found,use⟩,within⟩ := usable a (by simp)
    have listed : dealt (a :: rest) = indices a.ranges ++ dealt rest := by simp [dealt]
    rw [listed] at once bare
    obtain ⟨own,others,apart⟩ := List.nodup_append'.mp once
    have fit : Fit t lane a.ranges := Fit.bare ready.orderly found use within own
      (fun i member => bare i (List.mem_append_left _ member))
    have grows := fit.grows ready.orderly found now (fun finishAt => max finishAt (projection now a))
    have taken := takeAssignment_present found now
    -- The state after the first assignment, whatever allowances it leaves.
    have rest' : ∀ {u : Transfer}, Give t u → Grows t u a.source (indices a.ranges) → u.probePeers = t.probePeers →
        Tickets t.probePeers u.probeAvailable rest left →
          { takeAssignment now t a with probeAvailable := left, late := late } =
            { u with probeAvailable := left, late := late } →
          Gives t ((a :: rest).foldl (takeAssignment now) { t with probeAvailable := left, late := late }) := by
      intro u act grown probes later same
      rw [List.foldl_cons,takeAssignment_marks,same]
      refine Relation.ReflTransGen.head act (ih (act.ready ready) (probes ▸ later) ?_ others ?_)
      · intro b member
        obtain ⟨used,inside⟩ := usable b (by simp [member])
        exact ⟨grown.inUse used,by rw [grown.verified]; exact inside⟩
      · intro i member
        exact grown.uncovered (live_of_entry found use) (bare i (List.mem_append_right _ member))
          (fun mine => apart mine member)
    cases tickets with
    | @trial _ _ _ _ i allowed one later =>
      rw [one] at fit
      refine rest' (.tries found use now fit (fun finishAt => max finishAt (projection now a)) allowed) ?_ ?_ later ?_
      · rw [one] at grows ⊢; exact grows.marked _
      · exact issue_probePeers _ now _
      · rw [taken,one]
    | plain normal later =>
      refine rest' (.gives found use now fit (fun finishAt => max finishAt (projection now a)) normal) grows
        (issue_probePeers _ now _) ?_ ?_
      · rw [issue_probeAvailable]; exact later
      · rw [taken]
theorem queueOrigin_acts (ready : Ready t) (mixed : t.peerOnly = false) (now : Nat)
    {range : PieceRange} (within : Within t.verified.length [range])
    (bare : ∀ i ∈ range.indices, ¬ t.covered i) :
    Gives t (t.queueOrigin now range) ∧ ∀ i, ¬ t.covered i → i ∉ range.indices →
      ¬ (t.queueOrigin now range).covered i := by
  obtain ⟨lane,found,use⟩ := ready.homed mixed
  have single : indices [range] = range.indices := by simp
  have fit : Fit t lane [range] := Fit.bare ready.orderly found use within
    (by rw [single]; exact List.nodup_range') (by rw [single]; exact bare)
  have same : t.queueOrigin now range = (t.extendQueue .origin [range] id).issue now .origin := by
    simp only [queueOrigin,mixed,Bool.false_eq_true,if_false]
    rw [@openLane_present _ ⟨.origin,none,none⟩ _ found]
  rw [same]
  refine ⟨.single (.gives found use now fit id (ready.unprobed mixed)),fun i uncovered other => ?_⟩
  exact (fit.grows ready.orderly found now id).uncovered (live_of_entry found use) uncovered (by rwa [single])
theorem queueOrigins_acts (now : Nat) (ranges : List PieceRange) : ∀ {t : Transfer}, Ready t → t.peerOnly = false →
    Within t.verified.length ranges → (indices ranges).Nodup → (∀ i ∈ indices ranges, ¬ t.covered i) →
      Gives t (ranges.foldl (fun t range => t.queueOrigin now range) t) := by
  induction ranges with
  | nil => intro t _ _ _ _ _; exact .refl
  | cons range rest ih =>
    intro t ready mixed within once bare
    rw [indices_cons] at once bare
    obtain ⟨_,others,apart⟩ := List.nodup_append'.mp once
    obtain ⟨acts,uncovered⟩ := queueOrigin_acts ready mixed now (fun r member => within r (by simp_all))
      (fun i member => bare i (List.mem_append_left _ member))
    have works := acts.works
    refine acts.trans (ih (acts.ready ready) (works.peerOnly.trans mixed) ?_ others ?_)
    · rw [works.verified]; exact fun r member => within r (by simp [member])
    · exact fun i member => uncovered i (bare i (List.mem_append_right _ member)) (fun mine => apart mine member)
theorem assign_acts (ready : Ready t) (mixed : t.peerOnly = false) (now : Nat) {needed : List Nat}
    (once : needed.Nodup) (inside : ∀ i ∈ needed, i < t.verified.length) (bare : ∀ i ∈ needed, ¬ t.covered i) :
    Gives t (t.assign now needed) := by
  rcases assign_mixed mixed now needed with ⟨same,_⟩ | ⟨index,rfl,_,same⟩ | ⟨some,_,same⟩
  · rw [same]
  · rw [same]
    refine (queueOrigin_acts ready mixed now ?_ ?_).1
    · intro r member
      rw [List.mem_singleton] at member
      subst member
      exact ⟨by simp,inside index (by simp)⟩
    · intro i member
      have : i = index := by simpa [PieceRange.indices] using member
      exact bare i (by simp [this])
  · obtain ⟨pieces,proper,_⟩ := assignPlan_dealt ready.orderly (ready.homed mixed) now needed
    obtain ⟨tickets,used⟩ := assignPlan_tickets ready mixed now needed
    have planned : (t.assignPlan now needed).1.assignments ≠ [] := by
      intro none
      rw [none] at pieces
      exact some (by simpa [dealt] using pieces.symm)
    have within := within_of_dealt t.verified.length proper (by rw [pieces]; exact inside)
    rw [same,assign.assignMany,if_neg planned]
    exact takeAssignments_acts now (t.assignPlan now needed).1.late _ ready tickets
      (fun a member => ⟨used a member,within a member⟩) (by rw [pieces]; exact once) (by rw [pieces]; exact bare)

/-! ### Retired lanes -/

theorem retire_bare (t : Transfer) (s : Source) :
    (t.retire s).2.Nodup ∧ ∀ i ∈ (t.retire s).2, ¬ (t.retire s).1.covered i := by
  refine ⟨?_,?_⟩
  · unfold retire
    cases t.lanes.get? s with
    | none => exact List.nodup_nil
    | some lane => exact (List.nodup_dedup _).filter _
  rcases retire_cases t s with ⟨_,same⟩ | ⟨lane,found,after,given⟩
  · rw [same]; simp
  intro i member covered
  obtain ⟨⟨_,fresh⟩,elsewhere⟩ := (given i).mp member
  rcases covered_iff.mp covered with done | ⟨s',other,here,holds⟩
  · rw [(retire_works t s).isVerified,fresh] at done
    cases done
  by_cases same : s' = s
  · subst same
    rw [after] at here
    simp only [OrderedMap.get?_modify_self,found,Option.map_some,Option.some.injEq] at here
    subst here
    exact absurd (Lane.holds_iff.mp holds).1 (by simp)
  · exact elsewhere ⟨(s',other),OrderedMap.mem_entries.mpr here,same,holds⟩
theorem regive_acts (ready : Ready t) (mixed : t.peerOnly = false) (now : Nat) (p : Nat) :
    Gives (t.retire (.peer p)).1 (t.reassign now (.peer p)) := by
  have works := retire_works t (.peer p)
  obtain ⟨_,inside,_⟩ := retire_loses ready.orderly (s := .peer p) rfl
  refine assign_acts (retire_ready ready p) (works.peerOnly.trans mixed) now ((retire_bare t _).1.filter _) ?_ ?_
  · intro i member
    rw [works.verified]
    exact inside i (List.mem_filter.mp member).1
  · intro i member
    simpa using (List.mem_filter.mp member).2
theorem stop_acts (ready : Ready t) (mixed : t.peerOnly = false) (now : Nat) {p : Nat}
    {command : Command} (stops : command.stops p)
    (flying : command = .cancel p → t.flight (.peer p) ≠ []) : Acts t ((t.push command).reassign now (.peer p)) :=
  Relation.ReflTransGen.head (.retires stops flying) (regive_acts (push_ready ready command) mixed now p).acts

/-! ### Moving pieces of origin -/

theorem moveAssignments_acts (now : Nat) (assignments : List Assignment) : ∀ {t : Transfer}, Ready t →
    (∀ a ∈ assignments, InUse t a.source ∧ a.source.isPeer = true ∧ a.source ∉ t.probePeers ∧
      Within t.verified.length a.ranges) →
    (dealt assignments).Nodup → (∀ i ∈ dealt assignments, t.isVerified i = false) →
    (∀ i ∈ dealt assignments, ∀ s lane, s.isPeer = true ∨ t.exclusiveOrigin = true → t.lanes.get? s = some lane →
      i ∉ indices lane.work) →
      Gives t (assignments.foldl (moveAssignment now) t) := by
  induction assignments with
  | nil => intro t _ _ _ _ _; exact .refl
  | cons a rest ih =>
    intro t ready usable once fresh apart
    obtain ⟨⟨lane,found,use⟩,peer,normal,within⟩ := usable a (by simp)
    have listed : dealt (a :: rest) = indices a.ranges ++ dealt rest := by simp [dealt]
    rw [listed] at once fresh apart
    obtain ⟨own,others,differ⟩ := List.nodup_append'.mp once
    have fit : Fit t lane a.ranges := by
      refine ⟨within,own,fun i member => fresh i (List.mem_append_left _ member),?_,?_⟩
      · exact fun i member => apart i (List.mem_append_left _ member) a.source lane (.inl peer) found
      · exact fun exclusive i member s other => apart i (List.mem_append_left _ member) s other (.inr exclusive)
    have same : moveAssignment now t a = (t.extendQueue a.source a.ranges
        (fun finishAt => max finishAt (projection now a))).issue now a.source := by
      simp only [moveAssignment,found]
    have act : Give t (moveAssignment now t a) := by
      rw [same]
      exact .gives found use now fit _ normal
    have grows : Grows t (moveAssignment now t a) a.source (indices a.ranges) := by
      rw [same]
      exact fit.grows ready.orderly found now _
    have works := act.works
    refine Relation.ReflTransGen.head act (ih (act.ready ready) ?_ others ?_ ?_)
    · intro b member
      obtain ⟨used,peer',normal',inside⟩ := usable b (by simp [member])
      have probes : (moveAssignment now t a).probePeers = t.probePeers := by
        rw [same]; exact issue_probePeers _ now _
      exact ⟨grows.inUse used,peer',by rw [probes]; exact normal',by rw [grows.verified]; exact inside⟩
    · intro i member
      rw [works.isVerified]
      exact fresh i (List.mem_append_right _ member)
    · intro i member s' lane' which found'
      rw [works.exclusive] at which
      by_cases own' : s' = a.source
      · subst own'
        obtain ⟨old,new,before,after,_,_,pieces,_⟩ := grows.here
        rw [found'] at after
        cases after
        rw [pieces,List.mem_append,not_or]
        exact ⟨apart i (List.mem_append_right _ member) _ old which before,fun mine => differ mine member⟩
      · rw [grows.others s' own'] at found'
        exact apart i (List.mem_append_right _ member) s' lane' which found'
theorem owed_fresh {origin : Lane} (member : i ∈ t.owed origin) :
    t.isVerified i = false ∧ (i ∈ indices (if t.exclusiveOrigin then origin.queue else origin.work)) := by
  unfold owed at member
  have kept := List.mem_filter.mp ((List.mem_insertionSort _).mp (List.mem_dedup.mp member))
  exact ⟨by simpa using kept.2,kept.1⟩
theorem movedPlan_nodup {now : Nat} {origin : Lane} {planned : Plan}
    (moved : t.movedPlan now origin = some planned) : (dealt planned.assignments).Nodup := by
  unfold movedPlan at moved
  dsimp only at moved
  split_ifs at moved with noWork
  cases moved
  rw [split_dealt _ (by simpa [resolve] using (not_or.mp noWork).2)]
  exact (((List.nodup_dedup _).filter _).sublist (List.drop_sublist _ _))
theorem rebalanceOrigin_acts (ready : Ready t) (now : Nat) : Gives t (t.rebalanceOrigin now) := by
  rcases rebalanceOrigin_cases t now with same | ⟨origin,planned,_,_,found,moved,same⟩
  · rw [same]
  have once := movedPlan_nodup moved
  obtain ⟨input,peers,rfl,staffed,spare,needed⟩ := movedPlan_split moved
  obtain ⟨proper,sources⟩ := split_proper input staffed
  have pieces := split_dealt input staffed
  have within := within_of_dealt t.verified.length proper
    (by rw [pieces]; exact fun i member => owed_lt ready.orderly found (needed i member).1)
  have usable : ∀ a ∈ (split input peers).assignments, InUse t a.source ∧ a.source.isPeer = true ∧
      a.source ∉ t.probePeers ∧ Within t.verified.length a.ranges := by
    intro a member
    obtain ⟨p,listed,source⟩ := sources a member
    obtain ⟨entry,live,free,estimate⟩ := spare p listed
    obtain ⟨here,peer,use⟩ := mem_livePeers.mp live
    have key : a.source = entry.1 := by rw [source,estimate,ready.orderly.keyed _ _ here]
    have normal := free.1
    rw [ready.orderly.keyed _ _ here] at normal
    exact ⟨⟨entry.2,by rw [key]; exact here,use⟩,by rw [key]; exact peer,by rw [key]; exact normal,within a member⟩
  have fresh : ∀ i ∈ dealt (split input peers).assignments, t.isVerified i = false := by
    intro i member
    rw [pieces] at member
    exact (owed_fresh (needed i member).1).1
  -- No peer has a piece that moves: a live one does not hold it, and a retired one holds none.
  have apart : ∀ i ∈ dealt (split input peers).assignments, ∀ s lane, s.isPeer = true →
      t.lanes.get? s = some lane → i ∉ indices lane.work := by
    intro i member s lane peer here held
    rw [pieces] at member
    by_cases use : lane.retired = false
    · exact (needed i member).2 (s,lane) (mem_livePeers.mpr ⟨here,peer,use⟩) (Lane.holds_iff.mpr ⟨use,held⟩)
    · rw [ready.orderly.gone s lane here (by simpa using use)] at held
      cases held
  rw [same]
  by_cases exclusive : t.exclusiveOrigin = true
  · rw [if_pos exclusive]
    obtain ⟨_,others⟩ := claimOrigin_loses ready.orderly (dealt (split input peers).assignments)
    refine Relation.ReflTransGen.head (.yields _)
      (moveAssignments_acts now _ (Give.ready (.yields _) ready) ?_ once fresh ?_)
    · intro a member
      obtain ⟨⟨lane,here,use⟩,peer,normal,inside⟩ := usable a member
      exact ⟨⟨lane,by rw [others _ peer]; exact here,use⟩,peer,normal,inside⟩
    · intro i member s lane _ here
      by_cases peer : s.isPeer = true
      · rw [others s peer] at here
        exact apart i member s lane peer here
      · have own : s = .origin := by
          cases s with
          | peer => exact absurd rfl peer
          | origin => rfl
        subst own
        simp only [claimOrigin,OrderedMap.get?_modify_self,found,Option.map_some,Option.some.injEq] at here
        subst here
        -- A claimed piece was queued, so it is not in flight as well.
        have queued : i ∈ indices origin.queue := by
          rw [pieces] at member
          have := (owed_fresh (needed i member).1).2
          rwa [if_pos exclusive] at this
        have lane := (ready.owned exclusive).1 _ _ found
        rw [Lane.work,indices_append] at lane
        rw [Lane.work,indices_append,List.mem_append,not_or,indices_runs]
        exact ⟨fun flying => (List.nodup_append'.mp lane).2.2 flying queued,by simp [member]⟩
  · rw [if_neg exclusive]
    refine moveAssignments_acts now _ ready usable once fresh ?_
    intro i member s lane which here
    exact apart i member s lane (which.resolve_right exclusive) here

/-! ### Refilling a peer-only transfer -/

/-- Nothing covers a pending piece. -/
def Bare (t : Transfer) : Prop := ∀ i ∈ t.peerPending, ¬ t.covered i

theorem issue_pended (t : Transfer) (now : Nat) (s : Source) (pending : List Nat) :
    ({ t with peerPending := pending } : Transfer).issue now s = { t.issue now s with peerPending := pending } := by
  unfold issue
  dsimp only
  cases t.lanes.get? s with
  | none => rfl
  | some lane =>
    dsimp only
    by_cases held : t.exclusiveOrigin ∧ s = .origin ∧ lane.inFlight ≠ []
    · rw [if_pos held,if_pos held]
    · rw [if_neg held,if_neg held]
      rfl
theorem Quiet.pended (t : Transfer) {pending : List Nat} (fewer : pending.Sublist t.peerPending) (late : Bool) :
    Quiet t { t with peerPending := pending, late := late } :=
  ⟨rfl,rfl,rfl,rfl,rfl,fun _ => rfl,fun _ member => .inl (fewer.subset member),fun once => fewer.nodup once,id⟩
theorem refillAssignment_present {a : Assignment}
    (found : t.lanes.get? a.source = some lane) (now : Nat) : refillAssignment now t a =
      { (t.extendQueue a.source a.ranges (fun _ => projection now a)).issue now a.source with
        peerPending := t.peerPending.filter (fun index => index ∉ indices a.ranges) } := by
  unfold refillAssignment
  simp only [found]
  exact issue_pended _ now _ _
theorem Bare.grows {t t' : Transfer} {s : Source} {extra : List Nat} (bare : Bare t) (grows : Grows t t' s extra)
    (live : Live t s) {pending : List Nat} (fewer : ∀ i ∈ pending, i ∈ t.peerPending ∧ i ∉ extra) (late : Bool) :
    Bare { t' with peerPending := pending, late := late } := by
  intro i member covered
  obtain ⟨old,other⟩ := fewer i member
  refine grows.uncovered live (bare i old) other ?_
  rw [covered_iff] at covered ⊢
  exact covered
theorem refillAssignments_acts (now : Nat) (assignments : List Assignment) : ∀ {t : Transfer}, Ready t → Bare t →
    (∀ a ∈ assignments, InUse t a.source ∧ a.source ∉ t.probePeers ∧ Within t.verified.length a.ranges) →
    (dealt assignments).Nodup → (∀ i ∈ dealt assignments, ¬ t.covered i) →
      Gives t (assignments.foldl (refillAssignment now) t) ∧ Bare (assignments.foldl (refillAssignment now) t) := by
  induction assignments with
  | nil => intro t _ bare _ _ _; exact ⟨.refl,bare⟩
  | cons a rest ih =>
    intro t ready bare usable once uncovered
    obtain ⟨⟨lane,found,use⟩,normal,within⟩ := usable a (by simp)
    have listed : dealt (a :: rest) = indices a.ranges ++ dealt rest := by simp [dealt]
    rw [listed] at once uncovered
    obtain ⟨own,others,differ⟩ := List.nodup_append'.mp once
    have fit : Fit t lane a.ranges := Fit.bare ready.orderly found use within own
      (fun i member => uncovered i (List.mem_append_left _ member))
    have grows := fit.grows ready.orderly found now (fun _ => projection now a)
    have same := refillAssignment_present found now
    set given := (t.extendQueue a.source a.ranges (fun _ => projection now a)).issue now a.source with named
    have pending : given.peerPending = t.peerPending := issue_pending _ now _
    have acts : Gives t (refillAssignment now t a) := by
      rw [same]
      refine (Relation.ReflTransGen.single (.gives found use now fit (fun _ => projection now a) normal)).tail
        (.notes ?_)
      exact Quiet.pended given (by rw [pending]; exact List.filter_sublist) given.late
    have bare' : Bare (refillAssignment now t a) := by
      rw [same]
      refine bare.grows grows (live_of_entry found use) ?_ given.late
      exact fun i member => by simpa using List.mem_filter.mp member
    have grown : Grows t (refillAssignment now t a) a.source (indices a.ranges) := by
      rw [same]; exact ⟨grows.others,grows.here,grows.verified⟩
    have probes : (refillAssignment now t a).probePeers = t.probePeers := by
      rw [same]; exact issue_probePeers _ now _
    obtain ⟨later,last⟩ := ih (acts.ready ready) bare' (fun b member => by
        obtain ⟨used,normal',inside⟩ := usable b (by simp [member])
        exact ⟨grown.inUse used,by rw [probes]; exact normal',by rw [grown.verified]; exact inside⟩) others
      (fun i member => grown.uncovered (live_of_entry found use) (uncovered i (List.mem_append_right _ member))
        (fun mine => differ mine member))
    exact ⟨acts.trans later,last⟩
theorem refillIdle_acts (ready : Ready t) (bare : Bare t) (now slots : Nat) :
    Gives t (t.refillIdle now slots) ∧ Bare (t.refillIdle now slots) := by
  rcases refillIdle_cases ready.orderly ready.pending now slots with ⟨same,_⟩ | ⟨assignments,late,same,pieces,usable⟩
  · rw [same]; exact ⟨.refl,bare⟩
  have marked : Quiet t { t with late := late } := Quiet.same rfl rfl rfl rfl rfl rfl rfl id
  rw [same]
  obtain ⟨acts,last⟩ :=
    @refillAssignments_acts now assignments { t with late := late } (Give.ready (.notes marked) ready)
    (fun i member covered => bare i member (marked.covered.mp covered)) usable
    (by rw [pieces]; exact ready.distinct)
    (fun i member covered => bare i (by rwa [pieces] at member) (marked.covered.mp covered))
  exact ⟨Relation.ReflTransGen.head (.notes marked) acts,last⟩
theorem refillProbe_given (t : Transfer) (now : Nat) (s : Source) (index : Nat) (pending : List Nat) :
    ∃ (finishAt : ℚ → ℚ) (late : Bool), refillProbe now t s index pending =
      { (t.extendQueue s [⟨index,index+1⟩] finishAt).issue now s with
        probeAvailable := t.probeAvailable.erase s, peerPending := pending, late := late } := by
  have same : ∀ (finishAt : ℚ → ℚ) (late : Bool),
      (({ t with peerPending := pending, probeAvailable := t.probeAvailable.erase s, late := late } :
        Transfer).extendQueue s [⟨index,index+1⟩] finishAt).issue now s =
      { (t.extendQueue s [⟨index,index+1⟩] finishAt).issue now s with
        probeAvailable := t.probeAvailable.erase s, peerPending := pending, late := late } := by
    intro finishAt late
    have one := issue_marks ({ t.extendQueue s [⟨index,index+1⟩] finishAt with peerPending := pending }) now s
      (t.probeAvailable.erase s) late
    rw [issue_pended] at one
    exact one
  exact ⟨_,_,same _ _⟩
theorem refillProbe_acts (ready : Ready t) (bare : Bare t) (now : Nat) (used : InUse t s)
    (allowed : s ∈ t.probeAvailable) {index : Nat} {pending : List Nat} (head : t.peerPending = index :: pending) :
    Gives t (refillProbe now t s index pending) ∧ Bare (refillProbe now t s index pending) ∧
      Grows t (refillProbe now t s index pending) s [index] ∧
      (refillProbe now t s index pending).probeAvailable = t.probeAvailable.erase s := by
  obtain ⟨lane,found,use⟩ := used
  have single : indices [⟨index,index+1⟩] = [index] := by simp [PieceRange.indices]
  have distinct := ready.distinct
  rw [head] at distinct
  have fit : Fit t lane [⟨index,index+1⟩] := by
    refine Fit.bare ready.orderly found use ?_ (by rw [single]; exact List.nodup_singleton _) ?_
    · intro r member
      rw [List.mem_singleton] at member
      subst member
      exact ⟨by simp,ready.pending index (by rw [head]; simp)⟩
    · rw [single]
      intro i member
      rw [List.mem_singleton] at member
      subst member
      exact bare _ (by rw [head]; simp)
  obtain ⟨finishAt,late,same⟩ := refillProbe_given t now s index pending
  rw [same]
  have grows := fit.grows ready.orderly found now finishAt
  rw [single] at grows
  have kept : ((t.extendQueue s [⟨index,index+1⟩] finishAt).issue now s).peerPending = index :: pending :=
    (issue_pending _ now _).trans head
  refine ⟨?_,?_,⟨grows.others,grows.here,grows.verified⟩,rfl⟩
  · refine (Relation.ReflTransGen.single (.tries found use now fit finishAt allowed)).tail
      (.notes (Quiet.pended _ ?_ late))
    dsimp only
    rw [kept]
    exact List.sublist_cons_self _ _
  · have last := @Bare.grows _ _ _ _ bare grows (live_of_entry found use) pending ?_ late
    · exact fun i member covered => last i member (by rw [covered_iff] at covered ⊢; exact covered)
    · intro i member
      rw [head]
      refine ⟨by simp [member],?_⟩
      rw [List.mem_singleton]
      rintro rfl
      exact (List.nodup_cons.mp distinct).1 member
theorem refillProbes_acts (now : Nat) (probes : List Source) : ∀ {t : Transfer}, Ready t → Bare t → probes.Nodup →
    (∀ s ∈ probes, InUse t s ∧ s ∈ t.probeAvailable) →
      Gives t (refillProbes now probes t) ∧ Bare (refillProbes now probes t) := by
  induction probes with
  | nil => intro t _ bare _ _; exact ⟨.refl,bare⟩
  | cons s rest ih =>
    intro t ready bare once used
    unfold refillProbes
    cases head : t.peerPending with
    | nil => exact ⟨.refl,bare⟩
    | cons index pending =>
      obtain ⟨other,later⟩ := List.nodup_cons.mp once
      obtain ⟨acts,last,grows,left⟩ := refillProbe_acts ready bare now (used s (by simp)).1 (used s (by simp)).2 head
      obtain ⟨more,bare'⟩ := ih (acts.ready ready) last later (fun s' member => by
        obtain ⟨inUse,allowed⟩ := used s' (by simp [member])
        refine ⟨grows.inUse inUse,?_⟩
        rw [left]
        exact Finset.mem_erase.mpr ⟨fun same => other (same ▸ member),allowed⟩)
      exact ⟨acts.trans more,bare'⟩
theorem idleProbes_mem (member : s ∈ t.idleProbes) : InUse t s ∧ s ∈ t.probeAvailable := by
  refine ⟨idleProbes_used member,?_⟩
  obtain ⟨entry,kept,rfl⟩ := List.mem_map.mp member
  have use := (List.mem_filter.mp kept).2
  simp only [decide_eq_true_eq] at use
  exact use.2.2
theorem entries_nodup (t : Transfer) : (t.lanes.entries.map (·.1)).Nodup := by
  have ascending := t.lanes.ascending
  exact (List.pairwise_map.mpr ascending).imp (fun less => ne_of_lt less)
theorem idleProbes_nodup (t : Transfer) : t.idleProbes.Nodup :=
  (entries_nodup t).sublist (List.Sublist.map _ List.filter_sublist)

/-- A run of acts, or one that ends in failure. -/
def Course (t t' : Transfer) : Prop := Acts t t' ∨ ∃ u, Acts t u ∧ t' = u.fail

theorem Course.after {t u t' : Transfer} (acts : Acts t u) (course : Course u t') : Course t t' := by
  rcases course with more | ⟨v,more,same⟩
  · exact .inl (acts.trans more)
  · exact .inr ⟨v,acts.trans more,same⟩
theorem prunePending_quiet (t : Transfer) : Quiet t t.prunePending :=
  Quiet.pended t List.filter_sublist t.late
theorem prunePending_bare (t : Transfer) : Bare t.prunePending := by
  intro i member covered
  have kept := (List.mem_filter.mp member).2
  simp only [decide_eq_true_eq] at kept
  exact kept ((prunePending_quiet t).covered.mp covered)
/-- A refill is a run of acts, or the transfer fails: because the floor has come,
    or no lane is in use. -/
theorem refillPeerOnly_course (ready : Ready t) (now : Nat) :
    Gives t (t.refillPeerOnly now) ∨
      (∃ u, Gives t u ∧ t.refillPeerOnly now = u.fail) ∧ (t.floorAt ≤ now ∨ ∀ s, ¬ InUse t s) := by
  unfold refillPeerOnly
  dsimp only
  by_cases early : t.finished = true ∨ t.started = false
  · rw [if_pos early]; exact .inl .refl
  rw [if_neg early]
  by_cases floor : t.floorAt ≤ now
  · rw [if_pos floor]
    exact .inr ⟨⟨{ t with floorReached := true },
      .single (.notes (Quiet.same rfl rfl rfl rfl rfl rfl rfl (fun _ => rfl))),rfl⟩,.inl floor⟩
  rw [if_neg floor]
  have pruned : Give t t.prunePending := .notes (prunePending_quiet t)
  by_cases dead : ∀ lane ∈ t.prunePending.lanes.values, lane.retired = true
  · rw [if_pos dead]
    refine .inr ⟨⟨_,.single pruned,rfl⟩,.inr ?_⟩
    rintro s ⟨lane,found,use⟩
    have gone := dead lane (OrderedMap.mem_values.mpr ⟨s,found⟩)
    rw [use] at gone
    cases gone
  rw [if_neg dead]
  split_ifs
  · exact .inl (.single pruned)
  · have ready' := pruned.ready ready
    obtain ⟨acts,bare⟩ := refillIdle_acts ready' (prunePending_bare t) now t.prunePending.holderSlots
    obtain ⟨more,_⟩ := refillProbes_acts now
      (((t.prunePending.refillIdle now t.prunePending.holderSlots).idleProbes).take
        (t.prunePending.refillIdle now t.prunePending.holderSlots).holderSlots) (acts.ready ready') bare
      ((idleProbes_nodup _).sublist (List.take_sublist _ _))
        (fun s member => idleProbes_mem (List.mem_of_mem_take member))
    exact .inl ((Relation.ReflTransGen.head pruned acts).trans more)
theorem pend_quiet (t : Transfer) (index : Nat) : Quiet t (t.pend index) := by
  unfold pend
  split_ifs with fits
  · refine ⟨rfl,rfl,rfl,rfl,rfl,fun _ => rfl,?_,?_,id⟩
    · intro i member
      rcases (List.mem_orderedInsert _).mp member with rfl | old
      · exact .inr fits.1
      · exact .inl old
    · exact fun once => (List.perm_orderedInsert _ _ _).nodup_iff.mpr (List.nodup_cons.mpr ⟨fits.2.2,once⟩)
  · exact Quiet.refl t
theorem Quiet.trans {a b c : Transfer} (first : Quiet a b) (second : Quiet b c) : Quiet a c := by
  refine ⟨second.fixed.trans first.fixed,second.finished.trans first.finished,second.commands.trans first.commands,
    second.probePeers.trans first.probePeers,second.probeAvailable.trans first.probeAvailable,
    fun s => (second.lanes s).trans (first.lanes s),?_,fun once => second.distinct (first.distinct once),
    fun reached => second.floor (first.floor reached)⟩
  intro i member
  rcases second.pending i member with old | inside
  · exact first.pending i old
  · exact .inr (by rwa [first.verified] at inside)
theorem pends_quiet (needed : List Nat) : ∀ t : Transfer, Quiet t (needed.foldl pend t) := by
  induction needed with
  | nil => exact Quiet.refl
  | cons i rest ih => intro t; exact (pend_quiet t i).trans (ih _)
theorem assign_course (ready : Ready t) (only : t.peerOnly = true) (now : Nat) (needed : List Nat) :
    Gives t (t.assign now needed) ∨
      (∃ u, Gives t u ∧ t.assign now needed = u.fail) ∧ (t.floorAt ≤ now ∨ ∀ s, ¬ InUse t s) := by
  unfold assign
  rw [if_pos only]
  have quiet := pends_quiet needed t
  have pended : Give t (needed.foldl pend t) := .notes quiet
  rcases refillPeerOnly_course (pended.ready ready) now with acts | ⟨⟨u,acts,same⟩,why⟩
  · exact .inl (Relation.ReflTransGen.head pended acts)
  · refine .inr ⟨⟨u,Relation.ReflTransGen.head pended acts,same⟩,why.imp ?_ ?_⟩
    · rw [quiet.works.floorAt]; exact id
    · exact fun none s used => none s (quiet.inUse.mpr used)

end Transfer
end RelaySwarm.Transfers
