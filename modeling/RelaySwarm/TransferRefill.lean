import RelaySwarm.TransferHolders
import RelaySwarm.TransferSteady

/-!
What a refill of a peer-only transfer leaves behind. Every missing piece stays with a
live lane or pending (`Placed`), and no lane loses its estimate or its probe mark
(`Rated`). After it pieces are pending beside a free holder only when each idle holder
is a probe that had its piece (`Keen`), and such a probe still owes one (`Tried`).
-/
namespace RelaySwarm.Transfers
open Pieces Planning
namespace Transfer

variable {t t' : Transfer} {s : Source} {lane : Lane} {i : Nat}
/-- Every piece is verified, with a live lane, or pending. -/
def Placed (t : Transfer) : Prop := ∀ i < t.verified.length, t.covered i ∨ i ∈ t.peerPending
/-- A probe that had its piece. -/
def Spent (t : Transfer) (s : Source) : Prop := s ∈ t.probePeers ∧ s ∉ t.probeAvailable
/-- Every lane in use is a probe's or a measured holder's. -/
def Known (t : Transfer) : Prop := ∀ s lane, t.lanes.get? s = some lane → lane.retired = false →
  s ∈ t.probePeers ∨ (positive lane.estimate.rate).isSome = true
/-- Beside pending pieces and a free holder only spent probes are idle. -/
def Keen (t : Transfer) : Prop := t.peerPending ≠ [] → t.holderSlots ≠ 0 → ∀ s lane, t.lanes.get? s = some lane →
  lane.retired = false → lane.idle → t.Spent s
/-- A spent probe in use, unless excepted, has an unverified piece to do. -/
def Tried (t : Transfer) (except : List Source) : Prop := ∀ p lane, t.lanes.get? (.peer p) = some lane →
  lane.retired = false → t.Spent (.peer p) → .peer p ∈ except ∨ ∃ i ∈ indices lane.work, t.isVerified i = false

/-! ### Estimates and places -/

/-- A step that keeps the estimates and the probe marks, and revives no lane. -/
structure Rated (t t' : Transfer) : Prop where
  probes : t'.probePeers = t.probePeers
  lanes : ∀ s lane', t'.lanes.get? s = some lane' → ∃ lane, t.lanes.get? s = some lane ∧
    lane'.estimate = lane.estimate ∧ (lane'.retired = false → lane.retired = false)
theorem Rated.refl (t : Transfer) : Rated t t := ⟨rfl,fun _ lane found => ⟨lane,found,rfl,id⟩⟩
theorem Rated.trans {a b c : Transfer} (first : Rated a b) (second : Rated b c) : Rated a c := by
  refine ⟨second.probes.trans first.probes,fun s lane' found => ?_⟩
  obtain ⟨lane,between,same,use⟩ := second.lanes s lane' found
  obtain ⟨old,before,same',use'⟩ := first.lanes s lane between
  exact ⟨old,before,same.trans same',fun live => use' (use live)⟩
theorem Rated.same (probes : t'.probePeers = t.probePeers) (lanes : t'.lanes = t.lanes) : Rated t t' :=
  ⟨probes,fun _ lane found => ⟨lane,by rwa [lanes] at found,rfl,id⟩⟩
theorem Rated.modify (t : Transfer) (s : Source) {f : Lane → Lane}
    (estimate : ∀ lane, (f lane).estimate = lane.estimate)
    (use : ∀ lane, (f lane).retired = false →
      lane.retired = false) : Rated t { t with lanes := t.lanes.modify s f } := by
  refine ⟨rfl,fun s' lane' found => ?_⟩
  dsimp only at found
  rw [OrderedMap.get?_modify] at found
  split_ifs at found with own
  · obtain ⟨lane,before,rfl⟩ := Option.map_eq_some_iff.mp found
    exact ⟨lane,before,estimate lane,use lane⟩
  · exact ⟨lane',found,rfl,id⟩
theorem Rated.foldl {α : Type} {f : Transfer → α → Transfer} (each : ∀ t a, Rated t (f t a)) (as : List α) :
    ∀ t, Rated t (as.foldl f t) := by
  induction as with
  | nil => exact Rated.refl
  | cons a rest ih => intro t; exact (each t a).trans (ih _)
theorem Rated.known (rated : Rated t t') (known : Known t) : Known t' := by
  intro s lane' found use
  obtain ⟨lane,before,same,live⟩ := rated.lanes s lane' found
  rw [rated.probes,same]
  exact known s lane before (live use)
theorem Rated.inUse (rated : Rated t t') (used : InUse t' s) : InUse t s := by
  obtain ⟨lane',found,use⟩ := used
  obtain ⟨lane,before,_,live⟩ := rated.lanes s lane' found
  exact ⟨lane,before,live use⟩

theorem issue_rated (t : Transfer) (now : Nat) (s : Source) : Rated t (t.issue now s) := by
  unfold issue
  cases t.lanes.get? s with
  | none => exact Rated.refl t
  | some lane =>
    dsimp only
    split_ifs
    · exact Rated.refl t
    all_goals
      refine (Rated.modify t s ?_ ?_).trans (Rated.same rfl rfl)
      · exact fun lane => (sending_work lane now _ _).2.2.2.2
      · exact fun lane use => by rwa [(sending_work lane now _ _).2.2.2.1] at use
theorem extendQueue_rated (t : Transfer) (s : Source) (ranges : List PieceRange) (finishAt : ℚ → ℚ) :
    Rated t (t.extendQueue s ranges finishAt) := Rated.modify t s (fun _ => rfl) (fun _ => id)
theorem extend_rated (t : Transfer) (now : Nat) (s : Source) (ranges : List PieceRange) (finishAt : ℚ → ℚ) :
    Rated t ((t.extendQueue s ranges finishAt).issue now s) :=
  (extendQueue_rated t s ranges finishAt).trans (issue_rated _ now s)
theorem retire_rated (t : Transfer) (s : Source) : Rated t (t.retire s).1 := by
  rcases retire_cases t s with ⟨_,same⟩ | ⟨_,_,same,_⟩
  · rw [same]; exact Rated.refl t
  · rw [same]; exact Rated.modify t s (fun _ => rfl) (fun _ dead => by cases dead)
theorem pend_rated (t : Transfer) (index : Nat) : Rated t (t.pend index) := by
  unfold pend
  split_ifs
  · exact Rated.same rfl rfl
  · exact Rated.refl t
theorem refillAssignment_rated (now : Nat) (t : Transfer) (a : Assignment) : Rated t (refillAssignment now t a) := by
  cases found : t.lanes.get? a.source with
  | none =>
    unfold refillAssignment
    rw [found]
    exact Rated.refl t
  | some lane =>
    rw [refillAssignment_present found]
    exact (extend_rated t now a.source a.ranges _).trans (Rated.same rfl rfl)
theorem refillProbe_rated (now : Nat) (t : Transfer) (s : Source) (index : Nat) (pending : List Nat) :
    Rated t (refillProbe now t s index pending) := by
  obtain ⟨finishAt,late,same⟩ := refillProbe_given t now s index pending
  rw [same]
  exact (extend_rated t now s _ finishAt).trans (Rated.same rfl rfl)
theorem refillProbes_rated (now : Nat) (probes : List Source) : ∀ t, Rated t (refillProbes now probes t) := by
  induction probes with
  | nil => exact Rated.refl
  | cons s rest ih =>
    intro t
    unfold refillProbes
    cases t.peerPending with
    | nil => exact Rated.refl t
    | cons index pending => exact (refillProbe_rated now t s index pending).trans (ih _)

theorem Placed.grows {t t' : Transfer} {s : Source} {extra : List Nat} (placed : Placed t) (grows : Grows t t' s extra)
    (live : Live t s) (pending : ∀ i ∈ t.peerPending, i ∈ t'.peerPending ∨ i ∈ extra) : Placed t' := by
  intro i inside
  rw [grows.verified] at inside
  rcases placed i inside with covered | waits
  · exact .inl (grows.covers live (.inl covered))
  · exact (pending i waits).symm.imp (fun taken => grows.covers live (.inr taken)) id
theorem prunePending_placed (placed : Placed t) : Placed t.prunePending := by
  intro i inside
  rw [(prunePending_quiet t).covered]
  by_cases covered : t.covered i
  · exact .inl covered
  · refine .inr (List.mem_filter.mpr ⟨(placed i inside).resolve_left covered,?_⟩)
    simpa using covered
theorem pends_places (needed : List Nat) : ∀ t :
    Transfer, (∀ i < t.verified.length, t.covered i ∨ i ∈ t.peerPending ∨ i ∈ needed) →
    Placed (needed.foldl pend t) := by
  induction needed with
  | nil =>
    intro t placed i inside
    simpa using placed i inside
  | cons index rest ih =>
    intro t placed
    refine ih _ (fun i inside => ?_)
    rw [(pend_quiet t index).verified] at inside
    rw [(pend_quiet t index).covered]
    rcases placed i inside with covered | waits | chosen
    · exact .inl covered
    · refine .inr (.inl ?_)
      unfold pend
      split_ifs
      · exact (List.mem_orderedInsert _).mpr (.inr waits)
      · exact waits
    rcases List.mem_cons.mp chosen with rfl | later
    · by_cases covered : t.covered i
      · exact .inl covered
      · refine .inr (.inl ?_)
        unfold pend
        split_ifs with fits
        · exact (List.mem_orderedInsert _).mpr (.inl rfl)
        · by_contra out
          exact fits ⟨inside,covered,out⟩
    · exact .inr (.inr later)
theorem refillAssignments_placed (now : Nat) (assignments : List Assignment) : ∀ {t : Transfer}, Tidy t →
    (∀ a ∈ assignments, InUse t a.source ∧ Within t.verified.length a.ranges) →
      (Placed t → Placed (assignments.foldl (refillAssignment now) t)) ∧
      ∀ i ∈ (assignments.foldl (refillAssignment now) t).peerPending, i ∈ t.peerPending ∧ i ∉ dealt assignments := by
  induction assignments with
  | nil => intro t _ _; exact ⟨id,fun i waits => ⟨waits,by simp [dealt]⟩⟩
  | cons a rest ih =>
    intro t tidy usable
    obtain ⟨used,within⟩ := usable a (by simp)
    have one := refillAssignment_stays tidy now used within
    obtain ⟨lane,found,use⟩ := used
    have same := refillAssignment_present found now
    have grows := extend_grows found now (fun _ => projection now a) (tidy.orderly.within _ _ found) within
    have placed' : Placed t → Placed (refillAssignment now t a) := by
      intro placed
      rw [same]
      refine @Placed.grows t _ a.source (indices a.ranges) placed ⟨grows.others,grows.here,grows.verified⟩
        (live_of_entry found use) (fun i waits => ?_)
      by_cases taken : i ∈ indices a.ranges
      · exact .inr taken
      · exact .inl (List.mem_filter.mpr ⟨waits,by simpa using taken⟩)
    obtain ⟨last,fewer⟩ := ih one.tidy (fun b member => by
      obtain ⟨used',inside⟩ := usable b (by simp [member])
      exact ⟨one.used _ used',by rw [one.works.verified]; exact inside⟩)
    refine ⟨fun placed => last (placed' placed),fun i waits => ?_⟩
    obtain ⟨before,other⟩ := fewer i waits
    rw [same] at before
    obtain ⟨old,free⟩ := List.mem_filter.mp before
    refine ⟨old,?_⟩
    simp only [dealt,List.flatMap_cons,List.mem_append,not_or]
    exact ⟨by simpa using free,other⟩
theorem refillProbe_placed (ready : Ready t) (bare : Bare t) (placed : Placed t) (now : Nat)
    (used : InUse t s) (allowed : s ∈ t.probeAvailable) {index : Nat} {pending : List Nat}
    (head : t.peerPending = index :: pending) : Placed (refillProbe now t s index pending) := by
  obtain ⟨_,_,grows,_⟩ := refillProbe_acts ready bare now used allowed head
  refine placed.grows grows used.live (fun i waits => ?_)
  rw [head,List.mem_cons] at waits
  obtain ⟨_,_,same⟩ := refillProbe_given t now s index pending
  rw [same]
  exact waits.symm.imp id (fun own => by rw [own]; exact List.mem_singleton_self _)

/-! ### Work goes on -/

theorem Grows.back {extra : List Nat} (grows : Grows t t' s extra) {s' : Source} {lane' : Lane}
    (found : t'.lanes.get? s' = some lane') : ∃ lane, t.lanes.get? s' = some lane ∧ lane'.retired = lane.retired ∧
      indices lane'.work = indices lane.work ++ if s' = s then extra else [] := by
  by_cases own : s' = s
  · subst own
    obtain ⟨lane,new,before,after,use,_,pieces,_⟩ := grows.here
    rw [found] at after
    cases after
    exact ⟨lane,before,use,by rw [pieces,if_pos rfl]⟩
  · rw [grows.others s' own] at found
    exact ⟨lane',found,rfl,by rw [if_neg own,List.append_nil]⟩
theorem Grows.held {extra : List Nat} (grows : Grows t t' s extra) {s' : Source}
    (found : t.lanes.get? s' = some lane) (member : i ∈ indices lane.work) :
    ∃ lane', t'.lanes.get? s' = some lane' ∧ i ∈ indices lane'.work := by
  by_cases own : s' = s
  · subst own
    obtain ⟨old,new,before,after,_,_,pieces,_⟩ := grows.here
    rw [found] at before
    cases before
    exact ⟨new,after,by rw [pieces]; exact List.mem_append_left _ member⟩
  · exact ⟨lane,by rw [grows.others s' own]; exact found,member⟩
theorem Give.held (given : Give t t') (ready : Ready t) {p i : Nat}
    (found : t.lanes.get? (.peer p) = some lane) (member : i ∈ indices lane.work) :
    ∃ lane', t'.lanes.get? (.peer p) = some lane' ∧ i ∈ indices lane'.work := by
  cases given with
  | notes quiet =>
    obtain ⟨lane',after,same⟩ := quiet.after found
    exact ⟨lane',after,by rwa [Lane.post_work same]⟩
  | gives lane' _ now fit finishAt _ => exact (fit.grows ready.orderly lane' now finishAt).held found member
  | tries lane' _ now fit finishAt _ => exact ((fit.grows ready.orderly lane' now finishAt).marked _).held found member
  | issues lane' _ now => exact (issue_grows lane' now (ready.orderly.within _ _ lane')).held found member
  | yields claimed => exact ⟨lane,by rw [(claimOrigin_loses ready.orderly claimed).2 _ rfl]; exact found,member⟩
theorem Gives.held (gives : Gives t t') (ready : Ready t) {p i : Nat}
    (found : t.lanes.get? (.peer p) = some lane) (member : i ∈ indices lane.work) :
    ∃ lane', t'.lanes.get? (.peer p) = some lane' ∧ i ∈ indices lane'.work := by
  induction gives with
  | refl => exact ⟨lane,found,member⟩
  | tail first given ih =>
    have part : Gives t _ := first
    obtain ⟨between,found',member'⟩ := ih
    exact given.held (part.ready ready) found' member'
theorem Tried.grows {t t' : Transfer} {s : Source} {extra : List Nat} {except : List Source} (tried : Tried t except)
    (grows : Grows t t' s extra) (spent : ∀ p, t'.Spent (.peer p) → t.Spent (.peer p) ∨
      .peer p = s ∧ ∃ i ∈ extra, t.isVerified i = false) : Tried t' except := by
  intro p lane' found use gone
  obtain ⟨lane,before,same,pieces⟩ := grows.back found
  have fresh : ∀ i, t'.isVerified i = t.isVerified i := fun i => verified_same grows.verified
  rcases spent p gone with old | ⟨own,i,member,missing⟩
  · rcases tried p lane before (same.symm.trans use) old with out | ⟨i,member,missing⟩
    · exact .inl out
    · exact .inr ⟨i,by rw [pieces]; exact List.mem_append_left _ member,(fresh i).trans missing⟩
  · refine .inr ⟨i,?_,(fresh i).trans missing⟩
    rw [pieces,if_pos own]
    exact List.mem_append_right _ member
theorem Give.tried (given : Give t t') (ready : Ready t) {except : List Source} (tried : Tried t except) :
    Tried t' except := by
  cases given with
  | notes quiet =>
    intro p lane' found use spent
    obtain ⟨lane,before,same⟩ := quiet.before found
    rw [← Lane.post_work same]
    unfold Spent at spent
    rw [quiet.probePeers,quiet.probeAvailable] at spent
    refine (tried p lane before ((Lane.post_eq same).2.2.1.trans use) spent).imp id ?_
    rintro ⟨i,member,missing⟩
    exact ⟨i,member,(verified_same quiet.verified).trans missing⟩
  | @gives s lane found _ now ranges fit finishAt normal =>
    refine tried.grows (fit.grows ready.orderly found now finishAt) (fun p spent => .inl ?_)
    unfold Spent at *
    rwa [issue_probePeers,issue_probeAvailable] at spent
  | @tries s lane found _ now i fit finishAt allowed =>
    have grows := (fit.grows ready.orderly found now finishAt).marked (t.probeAvailable.erase s)
    refine tried.grows grows (fun p spent => ?_)
    have probe : .peer p ∈ t.probePeers := by
      have marked := spent.1
      dsimp only at marked
      rwa [issue_probePeers] at marked
    by_cases own : .peer p = s
    · exact .inr ⟨own,i,by simp [PieceRange.indices],fit.fresh i (by simp [PieceRange.indices])⟩
    · exact .inl ⟨probe,fun allowed' => spent.2 (Finset.mem_erase.mpr ⟨own,allowed'⟩)⟩
  | @issues s lane found _ now =>
    refine tried.grows (issue_grows found now (ready.orderly.within _ _ found)) (fun p spent => .inl ?_)
    unfold Spent at *
    rwa [issue_probePeers,issue_probeAvailable] at spent
  | yields claimed =>
    intro p lane' found use spent
    rw [(claimOrigin_loses ready.orderly claimed).2 _ rfl] at found
    exact tried p lane' found use spent
theorem Gives.tried (gives : Gives t t') (ready : Ready t) {except : List Source} (tried : Tried t except) :
    Tried t' except := by
  induction gives with
  | refl => exact tried
  | tail first given ih =>
    have part : Gives t _ := first
    exact given.tried (part.ready ready) ih

theorem Give.available (given : Give t t') (allowed : s ∈ t'.probeAvailable) :
    s ∈ t.probeAvailable := by
  cases given with
  | notes quiet => rwa [quiet.probeAvailable] at allowed
  | gives | issues => rwa [issue_probeAvailable] at allowed
  | tries => exact Finset.mem_of_mem_erase allowed
  | yields => exact allowed
theorem Gives.available (gives : Gives t t') (allowed : s ∈ t'.probeAvailable) :
    s ∈ t.probeAvailable := by
  induction gives with
  | refl => exact allowed
  | tail _ given ih => exact ih (given.available allowed)

/-! ### Who is idle afterwards -/

theorem active_workers (tidy : Tidy t) : t.activePeerOnlyHolders = t.workers.card := by
  refine le_antisymm ?_ (workers_active tidy.orderly)
  set busy := (t.lanes.entries.filter (fun entry => entry.2.retired = false ∧ ¬ entry.2.idle)).map (·.1) with named
  have active : t.activePeerOnlyHolders = busy.length := by
    rw [named]
    unfold activePeerOnlyHolders OrderedMap.values
    rw [List.filter_map,List.length_map,List.length_map]
    rfl
  have once : busy.Nodup := (entries_nodup t).sublist (List.Sublist.map _ List.filter_sublist)
  rw [active,← List.toFinset_card_of_nodup once]
  refine le_trans (Finset.card_le_card (fun s member => ?_)) (Finset.card_image_le (s := t.workers) (f := Source.peer))
  rw [List.mem_toFinset,named,List.mem_map] at member
  obtain ⟨⟨s',lane⟩,kept,rfl⟩ := member
  obtain ⟨listed,works⟩ := List.mem_filter.mp kept
  have found := OrderedMap.mem_entries.mp listed
  simp only [decide_eq_true_eq] at works
  cases s' with
  | origin =>
    rw [tidy.homeless] at found
    cases found
  | peer p =>
    refine Finset.mem_image.mpr ⟨p,mem_workers.mpr ⟨lane,found,fun none => works.2 ?_⟩,rfl⟩
    obtain ⟨flight,queue⟩ := List.append_eq_nil_iff.mp none
    exact ⟨List.map_eq_nil_iff.mp flight,queue⟩
theorem refillProbes_done (none : t.peerPending = []) (now : Nat) (probes : List Source) :
    refillProbes now probes t = t := by
  cases probes with
  | nil => rfl
  | cons s rest => unfold refillProbes; rw [none]
theorem refillProbes_kept (now : Nat) (probes : List Source) : ∀ {t : Transfer}, Ready t → t.peerOnly = true → Bare t →
    probes.Nodup → (∀ s ∈ probes, InUse t s ∧ s ∈ t.probeAvailable) →
      (Placed t → Placed (refillProbes now probes t)) ∧ ((refillProbes now probes t).peerPending ≠ [] →
        ∀ s ∈ probes, ∃ p, s = .peer p ∧ p ∈ (refillProbes now probes t).workers) := by
  induction probes with
  | nil => intro t _ _ _ _ _; exact ⟨id,fun _ s member => by cases member⟩
  | cons s rest ih =>
    intro t ready only bare once used
    unfold refillProbes
    cases head : t.peerPending with
    | nil => exact ⟨id,fun some => absurd head some⟩
    | cons index pending =>
      dsimp only
      obtain ⟨other,later⟩ := List.nodup_cons.mp once
      obtain ⟨inUse,allowed⟩ := used s (by simp)
      obtain ⟨gives,bare',grows,left⟩ := refillProbe_acts ready bare now inUse allowed head
      have ready' := gives.ready ready
      have peersOnly := gives.acts.peerOnly.trans only
      have used' : ∀ s' ∈ rest, InUse (refillProbe now t s index pending) s' ∧
          s' ∈ (refillProbe now t s index pending).probeAvailable := by
        intro s' member
        obtain ⟨inUse',allowed'⟩ := used s' (by simp [member])
        refine ⟨grows.inUse inUse',?_⟩
        rw [left]
        exact Finset.mem_erase.mpr ⟨fun same => other (same ▸ member),allowed'⟩
      obtain ⟨places,employs⟩ := ih ready' peersOnly bare' later used'
      refine ⟨fun placed => places (refillProbe_placed ready bare placed now inUse allowed head),
        fun some s' member => ?_⟩
      rcases List.mem_cons.mp member with rfl | member
      · cases s' with
        | origin =>
          obtain ⟨lane,found,_⟩ := inUse
          rw [ready.homeless only] at found
          cases found
        | peer p =>
          obtain ⟨_,lane,_,found,_,_,pieces,_⟩ := grows.here
          obtain ⟨lane',found',held⟩ := (refillProbes_acts now rest ready' bare' later used').1.held ready' found
            (show index ∈ indices lane.work by rw [pieces]; simp)
          exact ⟨p,rfl,mem_workers.mpr ⟨lane',found',fun none => by rw [none] at held; cases held⟩⟩
      · exact employs some s' member
/-- What a refill that does not end the transfer leaves. -/
structure Refilled (now : Nat) (t t' : Transfer) : Prop where
  early : now < t.floorAt
  gives : Gives t t'
  rated : Rated t t'
  placed : Placed t → Placed t'
  bare : Bare t'
  keen : Known t → Keen t'
  used : ∃ s, InUse t' s

theorem probes_keen (ready : Ready t) (only : t.peerOnly = true) (bare : Bare t) (now : Nat)
    (untested : ∀ s lane, t.lanes.get? s = some lane → lane.retired = false → lane.idle → s ∈ t.probePeers) :
    Keen (refillProbes now (t.idleProbes.take t.holderSlots) t) := by
  set chosen := t.idleProbes.take t.holderSlots with named
  set u := refillProbes now chosen t with result
  intro waits free s lane' found use rests
  have once : chosen.Nodup := (idleProbes_nodup t).sublist (List.take_sublist _ _)
  have used : ∀ s ∈ chosen, InUse t s ∧ s ∈ t.probeAvailable :=
    fun s member => idleProbes_mem (List.mem_of_mem_take member)
  have employs := (refillProbes_kept now chosen ready only bare once used).2 waits
  have gives : Gives t u := (refillProbes_acts now chosen ready bare once used).1
  have tidy := ready.tidy only
  have tidy' := (gives.ready ready).tidy (gives.acts.peerOnly.trans only)
  -- the chosen probes are at work now, and were idle before
  have more : t.workers ∪ peersOf chosen ⊆ u.workers := by
    intro p member
    rcases Finset.mem_union.mp member with worked | picked
    · obtain ⟨lane,before,work⟩ := mem_workers.mp worked
      obtain ⟨i,held⟩ := List.exists_mem_of_ne_nil _ (fun none =>
        work (within_nil_of_indices (tidy.orderly.within _ _ before) none))
      obtain ⟨lane2,after,held'⟩ := gives.held ready before held
      exact mem_workers.mpr ⟨lane2,after,fun none => by rw [none] at held'; cases held'⟩
    · obtain ⟨q,same,working⟩ := employs _ (mem_peersOf.mp picked)
      cases same
      exact working
  have apart : Disjoint t.workers (peersOf chosen) := by
    rw [Finset.disjoint_left]
    intro p worked picked
    obtain ⟨lane,before,work⟩ := mem_workers.mp worked
    obtain ⟨⟨s',lane2⟩,kept,own⟩ := List.mem_map.mp (List.mem_of_mem_take (mem_peersOf.mp picked))
    obtain ⟨listed,idle⟩ := List.mem_filter.mp kept
    simp only [decide_eq_true_eq] at idle
    have before' := OrderedMap.mem_entries.mp listed
    dsimp only at own
    rw [own,before] at before'
    cases before'
    exact work (by simp [Lane.work,idle.2.1.1,idle.2.1.2])
  have peers : (peersOf chosen).card = chosen.length := by
    rw [← List.toFinset_card_of_nodup once]
    refine Finset.card_bij (fun p _ => Source.peer p) (fun p member => ?_) (fun _ _ _ _ same => by cases same; rfl)
      (fun s' member => ?_)
    · exact List.mem_toFinset.mpr (mem_peersOf.mp member)
    · obtain ⟨p,rfl,_⟩ := employs s' (List.mem_toFinset.mp member)
      exact ⟨p,mem_peersOf.mpr (List.mem_toFinset.mp member),rfl⟩
  have count := Finset.card_le_card more
  rw [Finset.card_union_of_disjoint apart,peers,← active_workers tidy,← active_workers tidy'] at count
  have config : u.config = t.config := congrArg Fixed.config gives.acts.works.fixed
  have room : t.idleProbes.length < t.holderSlots := by
    unfold holderSlots at *
    rw [config] at free
    rw [named,List.length_take] at count
    by_contra full
    rw [Nat.min_eq_left (by omega)] at count
    omega
  have all : chosen = t.idleProbes := List.take_of_length_le room.le
  -- so an idle lane left over is no idle probe, hence its allowance is gone
  obtain ⟨lane,before,same,use'⟩ := (refillProbes_rated now chosen t).lanes s lane' found
  have idle : lane.idle := by
    cases s with
    | origin =>
      rw [tidy.homeless] at before
      cases before
    | peer p =>
      by_contra works
      have worked : p ∈ t.workers := mem_workers.mpr ⟨lane,before,fun none => works ?_⟩
      · obtain ⟨lane2,after,work⟩ := mem_workers.mp (more (Finset.mem_union_left _ worked))
        rw [found] at after
        cases after
        exact work (by simp [Lane.work,rests.1,rests.2])
      · obtain ⟨flight,queue⟩ := List.append_eq_nil_iff.mp none
        exact ⟨List.map_eq_nil_iff.mp flight,queue⟩
  refine ⟨?_,fun allowed => ?_⟩
  · rw [(refillProbes_rated now chosen t).probes]
    exact untested s lane before (use' use) idle
  have listed : s ∈ chosen := by
    rw [all]
    refine List.mem_map.mpr ⟨(s,lane),List.mem_filter.mpr ⟨OrderedMap.mem_entries.mpr before,?_⟩,rfl⟩
    exact decide_eq_true ⟨use' use,idle,gives.available allowed⟩
  obtain ⟨p,rfl,working⟩ := employs s listed
  obtain ⟨lane2,after,work⟩ := mem_workers.mp working
  rw [found] at after
  cases after
  exact work (by simp [Lane.work,rests.1,rests.2])
/-- A refill of a peer-only transfer leaves its pieces placed and no holder idle that could work,
    or ends it: because the floor has come, or no lane is in use. -/
theorem refillPeerOnly_refilled (ready : Ready t) (only : t.peerOnly = true) (begun : t.started = true)
    (now : Nat) : Refilled now t (t.refillPeerOnly now) ∨
      ∃ u, Gives t u ∧ Rated t u ∧ t.refillPeerOnly now = u.fail ∧ (t.floorAt ≤ now ∨ ∀ s, ¬ InUse t s) := by
  unfold refillPeerOnly
  dsimp only
  rw [if_neg (by simp [ready.running,begun])]
  by_cases floor : t.floorAt ≤ now
  · rw [if_pos floor]
    exact .inr ⟨{ t with floorReached := true },
      .single (.notes (Quiet.same rfl rfl rfl rfl rfl rfl rfl (fun _ => rfl))),Rated.same rfl rfl,rfl,.inl floor⟩
  rw [if_neg floor]
  have quiet := prunePending_quiet t
  have pruned : Rated t t.prunePending := Rated.same rfl rfl
  by_cases dead : ∀ lane ∈ t.prunePending.lanes.values, lane.retired = true
  · rw [if_pos dead]
    refine .inr ⟨_,.single (.notes quiet),pruned,rfl,.inr ?_⟩
    rintro s ⟨lane,found,use⟩
    have gone := dead lane (OrderedMap.mem_values.mpr ⟨s,found⟩)
    rw [use] at gone
    cases gone
  rw [if_neg dead]
  have used : ∃ s, InUse t.prunePending s := by
    push Not at dead
    obtain ⟨lane,listed,use⟩ := dead
    obtain ⟨s,found⟩ := OrderedMap.mem_values.mp listed
    exact ⟨s,lane,found,by simpa using use⟩
  have ready' : Ready t.prunePending := Give.ready (.notes quiet) ready
  have bare := prunePending_bare t
  refine .inl ?_
  by_cases full : t.prunePending.holderSlots = 0 ∨ t.prunePending.peerPending = []
  · rw [if_pos full]
    exact ⟨not_le.mp floor,.single (.notes quiet),pruned,prunePending_placed,bare,
      fun _ some free => absurd full (not_or.mpr ⟨free,some⟩),used⟩
  rw [if_neg full]
  have tidy := ready'.tidy only
  obtain ⟨gives,bare'⟩ := refillIdle_acts ready' bare now t.prunePending.holderSlots
  have ready2 := gives.ready ready'
  have only2 : (t.prunePending.refillIdle now t.prunePending.holderSlots).peerOnly = true :=
    gives.acts.peerOnly.trans only
  generalize result : t.prunePending.refillIdle now t.prunePending.holderSlots = v at *
  have once : (v.idleProbes.take v.holderSlots).Nodup := (idleProbes_nodup v).sublist (List.take_sublist _ _)
  have used2 : ∀ s ∈ v.idleProbes.take v.holderSlots, InUse v s ∧ s ∈ v.probeAvailable :=
    fun s member => idleProbes_mem (List.mem_of_mem_take member)
  obtain ⟨more,bare2⟩ := refillProbes_acts now _ ready2 bare' once used2
  obtain ⟨places,_⟩ := refillProbes_kept now _ ready2 only2 bare' once used2
  have probed := refillProbes_rated now (v.idleProbes.take v.holderSlots) v
  have all := gives.trans more
  have given : Rated t.prunePending v ∧ (Placed t.prunePending → Placed v) ∧
      (Known t.prunePending → Keen (refillProbes now (v.idleProbes.take v.holderSlots) v)) := by
    rcases refillIdle_cases tidy.orderly tidy.pending now t.prunePending.holderSlots with
      ⟨same,untested⟩ | ⟨assignments,late,same,pieces,usable⟩
    · rw [result] at same
      subst same
      refine ⟨Rated.refl _,id,fun known => probes_keen ready' only bare now (fun s lane found use rests => ?_)⟩
      by_contra normal
      have unrated := untested s lane found use rests normal
      rw [(known s lane found use).resolve_left normal] at unrated
      cases unrated
    · rw [result] at same
      have marked : Rated t.prunePending { t.prunePending with late := late } := Rated.same rfl rfl
      have still : Stays t.prunePending { t.prunePending with late := late } :=
        Stays.same (Works.quiet rfl rfl rfl) rfl tidy tidy.pending
      have kept := @refillAssignments_placed now assignments { t.prunePending with late := late } still.tidy
        (fun a member => ⟨(usable a member).1,(usable a member).2.2⟩)
      rw [same]
      refine ⟨marked.trans (Rated.foldl (refillAssignment_rated now) assignments _),?_,fun known => ?_⟩
      · intro placed
        refine kept.1 (fun i inside => ?_)
        exact (placed i inside).imp (fun covered => by rw [covered_iff] at covered ⊢; exact covered) id
      · have none : (assignments.foldl (refillAssignment now) { t.prunePending with late := late }).peerPending =
            [] := by
          rw [List.eq_nil_iff_forall_not_mem]
          intro i waits
          obtain ⟨old,left⟩ := kept.2 i waits
          exact left (by rw [pieces]; exact old)
        rw [refillProbes_done none now]
        exact fun some => absurd none some
  exact ⟨not_le.mp floor,(Relation.ReflTransGen.single (.notes quiet)).trans all,pruned.trans (given.1.trans probed),
    fun placed => places (given.2.1 (prunePending_placed placed)),bare2,fun known => given.2.2 (pruned.known known),
    used.imp (fun s inUse => Gives.inUse all ready' inUse)⟩
end Transfer
end RelaySwarm.Transfers
