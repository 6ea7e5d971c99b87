import RelaySwarm.TransferBracket
import RelaySwarm.TransferKeyed
import Mathlib.Data.Finset.Card

/-!
How many peers work at once. A call gives work only to the peers it picks (`Gains`), so
the holder limit stands as long as those are no more than the free slots (`Spares`). A
start and the refills of a peer-only transfer see to that. A mixed transfer picks later
on without a look at who is at work. Whom it can pick then is read off the transfer
before the call, and they are to be few enough (`Roomy`).
-/
namespace RelaySwarm.Transfers
open Pieces Planning
namespace Transfer

variable {sources : List Source} {p now : Nat} {t t' : Transfer} {wide : Bool} {e : Event}
/-- The peers among the sources. -/
def peersOf (sources : List Source) : Finset Nat := (sources.filterMap (fun s => match s with
  | .peer p => some p
  | .origin => none)).toFinset
theorem mem_peersOf : p ∈ peersOf sources ↔ .peer p ∈ sources := by
  unfold peersOf
  rw [List.mem_toFinset,List.mem_filterMap]
  constructor
  · rintro ⟨s,member,is⟩
    cases s with
    | origin => cases is
    | peer q => cases is; exact member
  · exact fun member => ⟨.peer p,member,rfl⟩
theorem peersOf_card (sources : List Source) : (peersOf sources).card ≤ sources.length :=
  le_trans (List.toFinset_card_le _) (List.length_filterMap_le _ _)
/-- The peers with such a lane. -/
def peersWith (t : Transfer) (kept : Lane → Prop) [DecidablePred kept] : Finset Nat :=
  peersOf ((t.lanes.entries.filter (fun entry => kept entry.2)).map (·.1))
theorem mem_peersWith {kept : Lane → Prop} [DecidablePred kept] :
    p ∈ t.peersWith kept ↔ ∃ lane, t.lanes.get? (.peer p) = some lane ∧ kept lane := by
  unfold peersWith
  rw [mem_peersOf,List.mem_map]
  constructor
  · rintro ⟨⟨s,lane⟩,listed,rfl⟩
    obtain ⟨found,holds⟩ := List.mem_filter.mp listed
    exact ⟨lane,OrderedMap.mem_entries.mp found,of_decide_eq_true holds⟩
  · rintro ⟨lane,found,holds⟩
    exact ⟨(.peer p,lane),List.mem_filter.mpr ⟨OrderedMap.mem_entries.mpr found,decide_eq_true holds⟩,rfl⟩
def workers (t : Transfer) : Finset Nat := t.peersWith (fun lane => lane.work ≠ [])
theorem mem_workers : p ∈ t.workers ↔ ∃ lane, t.lanes.get? (.peer p) = some lane ∧ lane.work ≠ [] :=
  mem_peersWith
/-- A lane with work or, counted wide, one that may be given some. -/
def counts (wide : Bool) (lane : Lane) : Prop := lane.work ≠ [] ∨ (wide = true ∧ lane.retired = false)
instance (wide : Bool) (lane : Lane) : Decidable (counts wide lane) := inferInstanceAs (Decidable (_ ∨ _))
def usable (t : Transfer) : Finset Nat := t.peersWith (counts true)
def holderLimit (t : Transfer) : Nat := max t.config.maxHolders 1
/-- No more peers are at work than may. -/
def Limited (t : Transfer) : Prop := t.workers.card ≤ t.holderLimit
/-- The idle peers among the sources are no more than the free slots. -/
def Spares (t : Transfer) (sources : List Source) : Prop :=
  (peersOf sources \ t.workers).card ≤ t.holderLimit - t.workers.card

/-- A step that puts to work, or in use, only peers among the sources. -/
structure Gains (wide : Bool) (sources : List Source) (t t' : Transfer) : Prop where
  config : t'.config = t.config
  mode : t'.peerOnly = t.peerOnly
  only : ∀ p lane', t'.lanes.get? (.peer p) = some lane' → counts wide lane' → .peer p ∈ sources ∨
    ∃ lane, t.lanes.get? (.peer p) = some lane ∧ counts wide lane

theorem Gains.workers (gains : Gains false sources t t') :
    t'.workers ⊆ t.workers ∪ peersOf sources := by
  intro p working
  obtain ⟨lane',found,work⟩ := mem_workers.mp working
  rw [Finset.mem_union,mem_peersOf,mem_workers]
  rcases gains.only p lane' found (.inl work) with picked | ⟨lane,before,held | ⟨none,_⟩⟩
  · exact .inr picked
  · exact .inl ⟨lane,before,held⟩
  · cases none
theorem Gains.usable (gains : Gains true [] t t') : t'.usable ⊆ t.usable := by
  intro p used
  obtain ⟨lane',found,use⟩ := mem_peersWith.mp used
  exact mem_peersWith.mpr ((gains.only p lane' found use).resolve_left List.not_mem_nil)

section
variable {wide : Bool}

theorem Gains.refl (t : Transfer) : Gains wide [] t t := ⟨rfl,rfl,fun _ lane found work => .inr ⟨lane,found,work⟩⟩
theorem Gains.trans {a b c : Transfer} {first second : List Source} (one : Gains wide first a b)
    (two : Gains wide second b c) :
    Gains wide (first ++ second) a c := by
  refine ⟨two.config.trans one.config,two.mode.trans one.mode,fun p lane' found work => ?_⟩
  rw [List.mem_append]
  rcases two.only p lane' found work with picked | ⟨lane,held,before⟩
  · exact .inl (.inr picked)
  · exact (one.only p lane held before).imp .inl id
theorem Gains.idle {a b c : Transfer} (one : Gains wide sources a b) (two : Gains wide [] b c) :
    Gains wide sources a c := by
  have both := one.trans two
  rwa [List.append_nil] at both
theorem Gains.wider {sources more : List Source} (gains : Gains wide sources t t')
    (within : ∀ p, .peer p ∈ sources → .peer p ∈ more) : Gains wide more t t' :=
  ⟨gains.config,gains.mode,fun p lane' found work => (gains.only p lane' found work).imp (within p) id⟩
theorem Gains.folds {α : Type} {f : Transfer → α → Transfer} {as : List α}
    (each : ∀ a ∈ as, ∀ t, Gains wide sources t (f t a)) : ∀ t, Gains wide sources t (as.foldl f t) := by
  induction as with
  | nil => intro t; exact (Gains.refl t).wider (by simp)
  | cons a rest ih =>
    intro t
    have both := (each a (by simp) t).trans (ih (fun b member => each b (by simp [member])) (f t a))
    exact both.wider (by simp)
theorem Gains.same (config : t'.config = t.config) (mode : t'.peerOnly = t.peerOnly)
    (lanes : t'.lanes = t.lanes) : Gains wide [] t t' :=
  ⟨config,mode,fun p lane' found work => .inr ⟨lane',by rwa [lanes] at found,work⟩⟩
theorem Gains.modify (t : Transfer) (s : Source) {f : Lane → Lane} (none : ∀ lane, lane.work = [] → (f lane).work = [])
    (gone : ∀ lane, (f lane).retired = false →
      lane.retired = false) : Gains wide [] t { t with lanes := t.lanes.modify s f } := by
  refine ⟨rfl,rfl,fun p lane' found work => .inr ?_⟩
  dsimp only at found
  rw [OrderedMap.get?_modify] at found
  split_ifs at found with own
  · obtain ⟨lane,before,rfl⟩ := Option.map_eq_some_iff.mp found
    exact ⟨lane,before,work.imp (fun some empty => some (none lane empty)) (And.imp_right (gone lane))⟩
  · exact ⟨lane',found,work⟩
theorem Gains.within (gains : Gains true sources t t')
    (used : ∀ p, .peer p ∈ sources → p ∈ t.usable) : Gains true [] t t' :=
  ⟨gains.config,gains.mode,fun p lane' found use =>
    .inr ((gains.only p lane' found use).elim (fun picked => mem_peersWith.mp (used p picked)) id)⟩
end
theorem Limited.gains (limited : Limited t) (gains : Gains false sources t t')
    (spares : Spares t sources) : Limited t' := by
  unfold Limited Spares holderLimit at *
  rw [gains.config]
  have union : (t.workers ∪ peersOf sources).card = t.workers.card + (peersOf sources \ t.workers).card := by
    rw [← Finset.union_sdiff_self_eq_union,Finset.card_union_of_disjoint Finset.disjoint_sdiff]
  have few := Finset.card_le_card gains.workers
  omega
theorem Limited.idle (limited : Limited t) (gains : Gains false [] t t') : Limited t' :=
  limited.gains gains (by simp [Spares,peersOf])

/-! ### What each hand-out puts to work -/

section
variable {wide : Bool}

theorem issue_gains (t : Transfer) (now : Nat) (s : Source) : Gains wide [] t (t.issue now s) := by
  unfold issue
  cases found : t.lanes.get? s with
  | none => exact Gains.refl t
  | some lane =>
    dsimp only
    split_ifs
    · exact Gains.refl t
    all_goals
      refine ⟨rfl,rfl,fun p lane' after use => .inr ?_⟩
      dsimp only at after
      rw [OrderedMap.get?_modify] at after
      split_ifs at after with own
      · rw [own,found] at after
        cases after
        refine ⟨lane,by rw [own]; exact found,?_⟩
        rcases use with work | ⟨same,kept⟩
        · refine .inl (fun empty => work ?_)
          obtain ⟨flight,queue⟩ := List.append_eq_nil_iff.mp empty
          rw [(sending_work lane now _ _).1,queue,flight]
          rfl
        · exact .inr ⟨same,(sending_work lane now _ _).2.2.2.1.symm.trans kept⟩
      · exact ⟨lane',after,use⟩
theorem openLane_gains (t : Transfer) (now : Nat) (estimate : Estimate) :
    Gains wide (if wide then [estimate.source] else []) t (t.openLane now estimate) := by
  refine ⟨rfl,rfl,fun p lane' found use => ?_⟩
  rw [openLane_get] at found
  split_ifs at found with own
  · cases before : t.lanes.get? (.peer p) with
    | none =>
      rw [before] at found
      cases found
      rcases use with work | ⟨rfl,_⟩
      · exact absurd rfl work
      · exact .inl (by simp [own])
    | some lane =>
      rw [before] at found
      cases found
      exact .inr ⟨lane,rfl,use⟩
  · exact .inr ⟨lane',found,use⟩
theorem extendQueue_gains (t : Transfer) (s : Source) (ranges : List PieceRange) (finishAt : ℚ → ℚ) :
    Gains wide [s] t (t.extendQueue s ranges finishAt) := by
  refine ⟨rfl,rfl,fun p lane' found use => ?_⟩
  unfold extendQueue at found
  dsimp only at found
  rw [OrderedMap.get?_modify] at found
  split_ifs at found with own
  · exact .inl (by rw [own]; simp)
  · exact .inr ⟨lane',found,use⟩
theorem extend_gains (t : Transfer) (now : Nat) (s : Source) (ranges : List PieceRange) (finishAt : ℚ → ℚ) :
    Gains wide [s] t ((t.extendQueue s ranges finishAt).issue now s) :=
      (extendQueue_gains t s ranges finishAt).idle (issue_gains _ now s)
theorem opened_gains (now : Nat) (t : Transfer) (s : Source) (ranges : List PieceRange) (finishAt : ℚ → ℚ) :
    Gains wide [s] t (((t.openLane now ⟨s,none,none⟩).extendQueue s ranges finishAt).issue now s) :=
  ((openLane_gains t now ⟨s,none,none⟩).trans (extend_gains _ now s ranges finishAt)).wider (by cases wide <;> simp)
theorem moveAssignment_gains (now : Nat) (t : Transfer) (a : Assignment) :
    Gains wide [a.source] t (moveAssignment now t a) := by
  unfold moveAssignment
  cases t.lanes.get? a.source with
  | none => exact (Gains.refl t).wider (by simp)
  | some lane => exact extend_gains t now a.source a.ranges _
theorem queueOrigin_gains (mixed : t.peerOnly = false) (now : Nat) (range : PieceRange) :
    Gains wide [] t (t.queueOrigin now range) := by
  unfold queueOrigin
  rw [if_neg (by simp [mixed])]
  exact (opened_gains now t .origin [range] id).wider (by simp)
theorem retire_gains (t : Transfer) (s : Source) : Gains wide [] t (t.retire s).1 := by
  rcases retire_cases t s with ⟨_,same⟩ | ⟨_,_,same,_⟩
  · rw [same]
    exact Gains.refl t
  · rw [same]
    exact Gains.modify t s (fun _ _ => rfl) (fun _ gone => by cases gone)
theorem claimOrigin_gains (t : Transfer) (claimed : List Nat) : Gains wide [] t (t.claimOrigin claimed) := by
  refine Gains.modify t .origin (fun lane empty => ?_) (fun _ => id)
  obtain ⟨flight,queue⟩ := List.append_eq_nil_iff.mp empty
  simp [Lane.work,queue,flight,indices,runs]
theorem closeOut_gains (t : Transfer) : Gains wide [] t t.closeOut := by
  refine ⟨rfl,rfl,fun p lane' found use => .inr ?_⟩
  rw [show t.closeOut.lanes = t.lanes.mapValues (fun _ lane => { lane with inFlight := [], queue := [] }) from rfl,
    OrderedMap.get?_mapValues] at found
  obtain ⟨lane,before,rfl⟩ := Option.map_eq_some_iff.mp found
  exact ⟨lane,before,use.imp (fun work => absurd rfl work) id⟩
theorem fail_gains (t : Transfer) : Gains wide [] t t.fail := (closeOut_gains t).idle (Gains.same rfl rfl rfl)

/-! ### Who is picked -/

/-- The sources an assignment of a mixed transfer picks. -/
def picked (t : Transfer) (now : Nat) (needed : List Nat) : List Source :=
  if needed = [] ∨ t.finished = true ∨ (needed.length = 1 ∧ t.exclusiveOrigin = true ∧ t.originStarted = false) then []
  else (t.assignPlan now needed).1.assignments.map (·.source)
/-- The sources a rebalance picks. -/
def moved (t : Transfer) (now : Nat) : List Source :=
  if t.finished ∨ t.floorReached then []
  else (((t.lanes.get? .origin).bind (t.movedPlan now)).map (fun planned => planned.assignments.map (·.source))).getD []

theorem picked_none {needed : List Nat} (concluded : needed = [] ∨ t.finished = true) :
    t.picked now needed = [] := if_pos (concluded.imp id .inl)
theorem assignMany_gains (t : Transfer) (now : Nat) (needed : List Nat) :
    Gains wide ((t.assignPlan now needed).1.assignments.map (·.source)) t (assign.assignMany t now needed) := by
  unfold assign.assignMany
  dsimp only
  refine ((Gains.same rfl rfl rfl : Gains wide [] t (t.recordPlan (t.assignPlan now needed))).trans
    (Gains.folds (fun a member u => (opened_gains now u a.source a.ranges _).wider ?_) _)).wider (fun p member =>
      member)
  intro p own
  rw [List.mem_singleton] at own
  split_ifs at member with none
  · rw [List.mem_singleton] at member
    subst member
    cases own
  · exact List.mem_map.mpr ⟨a,member,own.symm⟩
theorem assign_gains (mixed : t.peerOnly = false) (now : Nat) (needed : List Nat) :
    Gains wide (t.picked now needed) t (t.assign now needed) := by
  have many : Gains wide _ t _ := assignMany_gains t now needed
  unfold assign
  rw [if_neg (by simp [mixed])]
  by_cases concluded : needed = [] ∨ t.finished = true
  · rw [if_pos concluded,picked_none concluded]
    exact Gains.refl t
  · rw [if_neg concluded]
    obtain ⟨some,running⟩ := not_or.mp concluded
    unfold picked
    rcases needed with _ | ⟨index,_ | ⟨other,rest⟩⟩
    · exact absurd rfl some
    · dsimp only
      by_cases shared : t.exclusiveOrigin = true ∧ t.originStarted = false
      · rw [if_pos shared,if_pos (.inr (.inr ⟨rfl,shared⟩))]
        exact queueOrigin_gains mixed now _
      · rw [if_neg shared,if_neg (by simp only [not_or]; exact ⟨some,running,fun single => shared single.2⟩)]
        exact many
    · rw [if_neg (by simp only [not_or]; exact ⟨some,running,fun single => by simp at single⟩)]
      exact many
theorem rebalanceOrigin_gains (t : Transfer) (now : Nat) : Gains wide (t.moved now) t (t.rebalanceOrigin now) := by
  rcases rebalanceOrigin_cases t now with same | ⟨origin,planned,running,early,found,chosen,same⟩
  · rw [same]
    exact (Gains.refl t).wider (by simp)
  · have sources : t.moved now = planned.assignments.map (·.source) := by simp [moved,running,early,found,chosen]
    rw [same,sources]
    have claimed : Gains wide [] t (if t.exclusiveOrigin then t.claimOrigin (dealt planned.assignments) else t) := by
      split_ifs
      · exact claimOrigin_gains t _
      · exact Gains.refl t
    refine (claimed.trans (Gains.folds (fun a member u => (moveAssignment_gains now u a).wider ?_) _)).wider
      (fun p member => member)
    intro p own
    rw [List.mem_singleton] at own
    exact List.mem_map.mpr ⟨a,member,own.symm⟩
theorem queueOrigins_gains (now : Nat) (ranges : List PieceRange) : ∀ {t : Transfer}, t.peerOnly = false →
    Gains wide [] t (ranges.foldl (fun t range => t.queueOrigin now range) t) := by
  induction ranges with
  | nil => intro t _; exact Gains.refl t
  | cons range rest ih =>
    intro t mixed
    have one : Gains wide [] t _ := queueOrigin_gains mixed now range
    exact one.idle (ih (one.mode.trans mixed))
theorem endgame_gains (t : Transfer) (now : Nat) (mixed : t.endgameTarget now = some .origin → t.peerOnly = false) :
    Gains wide (t.endgameTarget now).toList t (t.endgame now) := by
  rw [endgame_target]
  have marked : Gains wide [] t t.markDuplicated := Gains.same rfl rfl rfl
  cases chosen : t.endgameTarget now with
  | none => exact Gains.refl t
  | some s =>
    cases s with
    | origin => exact (marked.idle (queueOrigins_gains now _ (mixed chosen))).wider (by simp)
    | peer p => exact marked.trans (Gains.folds (fun range _ u => extend_gains u now (.peer p) [range] id) _)
theorem cancelLane_gains (state : Transfer × List Nat) (s : Source) : Gains wide [] state.1 (cancelLane state s).1 := by
  refine Gains.idle ?_ (retire_gains _ s)
  cases s with
  | origin => exact Gains.refl _
  | peer p => exact Gains.same rfl rfl rfl
theorem cancelLanes_gains (sources : List Source) : ∀ state : Transfer × List Nat,
    Gains wide [] state.1 (sources.foldl cancelLane state).1 := by
  induction sources with
  | nil => intro state; exact Gains.refl _
  | cons s rest ih => intro state; exact (cancelLane_gains state s).idle (ih (cancelLane state s))
theorem reachFloor_gains (mixed : t.peerOnly = false) (now : Nat) : Gains wide [] t (t.reachFloor now) := by
  unfold reachFloor
  dsimp only
  have noted : Gains wide [] t { t with floorReached := true } := Gains.same rfl rfl rfl
  have gains : Gains wide [] _ _ := cancelLanes_gains t.lateLanes ({ t with floorReached := true },[])
  exact (noted.idle gains).idle (queueOrigins_gains now _ (gains.mode.trans mixed))

end
theorem picked_usable (keyed : Keyed t) {needed : List Nat}
    (picked : .peer p ∈ t.picked now needed) : p ∈ t.usable := by
  have offered : ∀ e ∈ t.assignable now, e.source = .peer p → p ∈ t.usable := by
    intro e listed same
    obtain ⟨lane,found,use⟩ := assignable_found keyed listed
    rw [same] at found
    exact mem_peersWith.mpr ⟨lane,found,.inr ⟨rfl,use⟩⟩
  have planned : ∀ input : PlanInput, (∀ e ∈ input.peers, e ∈ t.assignable now) →
      input.origin = (t.lanes.get? .origin).map (·.estimate) → ∀ a ∈ (plan input).assignments, a.source = .peer p →
        p ∈ t.usable := by
    intro input peers home a member same
    rcases (plan_proper input).2 a member with ⟨e,listed,equal⟩ | ⟨e,found,equal⟩
    · exact offered e (peers e listed) (equal.symm.trans same)
    · rw [home] at found
      obtain ⟨lane,held,rfl⟩ := Option.map_eq_some_iff.mp found
      rw [keyed _ _ held,same] at equal
      cases equal
  unfold Transfer.picked at picked
  split_ifs at picked with none
  · cases picked
  obtain ⟨a,member,same⟩ := List.mem_map.mp picked
  unfold assignPlan at member
  dsimp only at member
  by_cases unprobed : t.probePeers = ∅
  · rw [if_pos unprobed] at member
    exact planned _ (fun _ listed => listed) rfl a member same
  · rw [if_neg unprobed] at member
    rcases List.mem_append.mp member with probe | normal
    · obtain ⟨e,listed,equal⟩ := (assignProbes_dealt t _ _ _ _ _).2.2 a probe
      exact offered e listed (equal.symm.trans same)
    · refine planned _ (fun e listed => ?_) rfl a normal same
      dsimp only at listed
      split_ifs at listed
      · cases listed
      · exact (List.mem_filter.mp listed).1

/-- Origin has work that a rebalance could move: with an exclusive origin only what its
    requests have not begun. -/
def owes (t : Transfer) : Bool :=
  (t.lanes.get? .origin).any (fun lane => decide ((if t.exclusiveOrigin then lane.queue else lane.work) ≠ []))
/-- The idle measured peers, while a rebalance could move work to them. -/
def movable (t : Transfer) : Finset Nat :=
  if t.floorReached = false ∧ t.owes = true then t.peersWith (fun lane => lane.retired = false ∧ t.spare lane) else ∅
theorem moved_movable (keyed : Keyed t) (picked : .peer p ∈ t.moved now) : p ∈ t.movable := by
  unfold moved at picked
  split_ifs at picked with rests
  · cases picked
  cases chosen : (t.lanes.get? .origin).bind (t.movedPlan now) with
  | none =>
    rw [chosen] at picked
    cases picked
  | some planned =>
    rw [chosen] at picked
    obtain ⟨a,member,same⟩ := List.mem_map.mp picked
    obtain ⟨origin,home,split⟩ := Option.bind_eq_some_iff.mp chosen
    obtain ⟨input,peers,rfl,some,spare,_⟩ := movedPlan_split split
    obtain ⟨timed,listed,equal⟩ := (split_proper input some).2 a member
    obtain ⟨entry,live,free,named⟩ := spare timed listed
    obtain ⟨found,_,use⟩ := mem_livePeers.mp live
    have key : entry.1 = .peer p := by rw [← keyed _ _ found,← named,← equal,same]
    have work : t.owes = true := by
      unfold movedPlan at split
      dsimp only at split
      split_ifs at split with nothing
      unfold owes
      rw [home]
      refine decide_eq_true (fun empty => nothing (.inl ?_))
      unfold owed
      dsimp only
      rw [empty]
      rfl
    unfold movable
    rw [if_pos ⟨by simpa using (not_or.mp rests).2,work⟩]
    exact mem_peersWith.mpr ⟨entry.2,by rw [← key]; exact found,use,free⟩
theorem movable_usable (movable : p ∈ t.movable) : p ∈ t.usable := by
  unfold Transfer.movable at movable
  split_ifs at movable with some
  · obtain ⟨lane,found,use,_⟩ := mem_peersWith.mp movable
    exact mem_peersWith.mpr ⟨lane,found,.inr ⟨rfl,use⟩⟩
  · exact absurd movable (Finset.notMem_empty p)
theorem target_usable (chosen : .peer p ∈ (t.endgameTarget now).toList) : p ∈ t.usable := by
  rcases endgameTarget_cases (Option.mem_toList.mp chosen) with ⟨lane,found,use,_⟩ | ⟨own,_⟩
  · exact mem_peersWith.mpr ⟨lane,found,.inr ⟨rfl,use⟩⟩
  · cases own

/-! ### A call to a mixed transfer -/

/-- A step that takes no peer in use and keeps lanes filed under their sources. -/
structure Draws (t t' : Transfer) : Prop where
  gains : Gains true [] t t'
  keyed : Keyed t'

theorem Draws.refl (keyed : Keyed t) : Draws t t := ⟨Gains.refl t,keyed⟩
theorem Draws.next {a b c : Transfer} (one : Draws a b) (mixed : a.peerOnly = false)
    (two : b.peerOnly = false → Keyed b → Draws b c) : Draws a c :=
  ⟨one.gains.idle (two (one.gains.mode.trans mixed) one.keyed).gains,(two (one.gains.mode.trans mixed) one.keyed).keyed⟩

section
variable {t : Transfer}

theorem push_draws (keyed : Keyed t) (command : Command) : Draws t (t.push command) := ⟨Gains.same rfl rfl rfl,keyed⟩
theorem assign_draws (mixed : t.peerOnly = false) (keyed : Keyed t) (now : Nat) (needed : List Nat) :
    Draws t (t.assign now needed) :=
  ⟨(assign_gains mixed now needed).within (fun _ => picked_usable keyed),assign_keyed keyed now needed⟩
theorem rebalance_draws (keyed : Keyed t) (now : Nat) : Draws t (t.rebalanceOrigin now) :=
  ⟨(rebalanceOrigin_gains t now).within (fun _ picked => movable_usable (moved_movable keyed picked)),
    rebalanceOrigin_keyed keyed now⟩
theorem retire_draws (keyed : Keyed t) (s : Source) : Draws t (t.retire s).1 := ⟨retire_gains t s,retire_keyed keyed s⟩
theorem reassign_draws (mixed : t.peerOnly = false) (keyed : Keyed t) (now : Nat) (s : Source) :
    Draws t (t.reassign now s) :=
  (retire_draws keyed s).next mixed (fun mixed keyed => assign_draws mixed keyed now _)
theorem retire_usable (t : Transfer) (s : Source) : (t.retire s).1.usable ⊆ t.usable \ peersOf [s] := by
  intro p used
  refine Finset.mem_sdiff.mpr ⟨(retire_gains t s).usable used,fun own => ?_⟩
  have same : s = .peer p := (List.mem_singleton.mp (mem_peersOf.mp own)).symm
  subst same
  obtain ⟨lane',found,use⟩ := mem_peersWith.mp used
  rcases retire_cases t (.peer p) with ⟨none,same⟩ | ⟨lane,_,same,_⟩
  · rw [same,none] at found
    cases found
  · rw [same] at found
    dsimp only at found
    rw [OrderedMap.get?_modify,if_pos rfl] at found
    obtain ⟨_,_,rfl⟩ := Option.map_eq_some_iff.mp found
    rcases use with work | ⟨_,kept⟩
    · exact work rfl
    · cases kept
theorem abandon_draws (mixed : t.peerOnly = false) (keyed : Keyed t) (now : Nat) (s : Source) :
    Draws t (t.abandon now s) := by
  cases s with
  | origin => exact .refl keyed
  | peer p =>
    exact ((push_draws keyed _).next mixed (fun mixed keyed => reassign_draws mixed keyed now _)).next mixed
      (fun _ keyed => rebalance_draws keyed now)
theorem drop_draws (now : Nat) (sources : List Source) : ∀ {t : Transfer}, t.peerOnly = false → Keyed t →
    Draws t (sources.foldl (dropLane now) t) := by
  induction sources with
  | nil => exact fun _ keyed => .refl keyed
  | cons s rest ih =>
    intro t mixed keyed
    have told : Draws t (t.cancelSource s) := by
      cases s with
      | origin => exact .refl keyed
      | peer p => exact push_draws keyed _
    exact (told.next mixed (fun mixed keyed => reassign_draws mixed keyed now s)).next mixed ih
theorem judge_draws (now : Nat) (sources : List Source) : ∀ {t : Transfer}, t.peerOnly = false → Keyed t →
    Draws t (judge now sources t) := by
  induction sources with
  | nil =>
    intro t mixed keyed
    have dealt : Draws t (t.endgame now) :=
      ⟨(endgame_gains t now (fun _ => mixed)).within (fun _ => target_usable),endgame_keyed keyed now⟩
    exact dealt.next mixed (fun _ keyed => rebalance_draws keyed now)
  | cons s rest ih =>
    intro t mixed keyed
    unfold judge
    split_ifs
    · exact .refl keyed
    · exact (abandon_draws mixed keyed now s).next mixed ih
    · have noted : Draws t { t with lanes := t.lanes.modify s (fun lane => { lane with checkedAt := now }) } :=
        ⟨Gains.modify t s (fun _ => id) (fun _ => id),KeyedLanes.modify keyed (fun _ => rfl)⟩
      exact noted.next mixed ih
end

/-! ### Whom a call can pick -/

/-- A source is behind its projection with pieces the endgame may duplicate. -/
def lags (t : Transfer) (now : Nat) : Bool := t.lanes.values.any (fun lane =>
  decide (lane.inFlight ≠ [] ∧ (∃ index ∈ t.endgamePieces, lane.holds index) ∧ lane.finishAt ≤ (now : ℚ)))
def idlers (t : Transfer) : Finset Nat := t.peersWith (fun lane => lane.retired = false ∧ lane.idle)
/-- The peers whose outstanding pieces are all verified with a response of another source. -/
def overtaken (t : Transfer) (winner : Source) (range : PieceRange) : Finset Nat :=
  t.peersWith (fun lane => lane.retired = false ∧ lane.inFlight ≠ [] ∧ ∀ sent ∈ lane.inFlight, ∀ index ∈ sent.1.indices,
    t.isVerified index = true ∨ index ∈ range.indices) \ peersOf [winner]
/-- The peers whose range in flight another source has verified. -/
def redundant (t : Transfer) (winner : Source) : List Source :=
  (t.lanes.entries.filter (fun entry => entry.1 ≠ winner ∧ entry.1.isPeer ∧ entry.2.retired = false ∧
    entry.2.inFlight ≠ [] ∧ ∀ sent ∈ entry.2.inFlight, ∀ index ∈ sent.1.indices, t.isVerified index)).map (·.1)
/-- A lane as it hears of bytes received. -/
def progressed (t : Transfer) (now : Nat) (s : Source) (received : Nat) : Transfer :=
  { t with lanes := t.lanes.modify s (fun lane => lane.progressed now received) }
/-- Whether the source is in use, or waits for the response to the range. -/
def serves (t : Transfer) (s : Source) : Bool := (t.lanes.get? s).any (fun lane => !lane.retired)
def awaits (t : Transfer) (s : Source) (range : PieceRange) : Bool :=
  (t.lanes.get? s).any (fun lane => lane.inFlight.any (·.1 = range))

section
variable (sha256 : List UInt8 → Digest)

/-- The peers that a call to a mixed transfer could leave at work, told from the transfer
    before it, are no more than may. A call that lets a source go can pick any other in
    use. Else a delivery and a tick can pick the idle measured peers while origin has work
    to move, and a tick one more idle peer for the endgame. -/
def Roomy (t : Transfer) : Event → Prop
  | .start _ peers origin _ _ _ => t.workers = ∅ ∨
      (t.usable ∪ peersOf ((peers ++ [origin]).map (·.source))).card ≤ t.holderLimit
  | .startPeerOnly .. => True
  | .failed _ s => t.serves s = true → (t.usable \ peersOf [s]).card ≤ t.holderLimit
  | .progress now s received => t.floorReached = false → (t.progressed now s received).hopeless now s = true →
      (t.usable \ peersOf [s]).card ≤ t.holderLimit
  | .delivered _ s range bytes => t.awaits s range = true →
      if bytes.length ≠ t.rangeLength range ∨ (response sha256 t s range bytes).bad = true then
        (t.usable \ peersOf [s]).card ≤ t.holderLimit
      else if (t.overtaken s range).Nonempty then t.usable.card ≤ t.holderLimit
      else (t.workers ∪ t.movable).card ≤ t.holderLimit
  | .tick now => t.floorReached = true ∨ now < t.floorAt →
      if ∃ s ∈ t.watched, t.hopeless now s = true then t.usable.card ≤ t.holderLimit
      else t.workers.card + t.movable.card + (if t.lags now = true ∧ t.idlers.Nonempty then 1 else 0) ≤ t.holderLimit
instance (t : Transfer) : (e : Event) → Decidable (Roomy sha256 t e)
  | .start .. => inferInstanceAs (Decidable (_ ∨ _))
  | .startPeerOnly .. => inferInstanceAs (Decidable True)
  | .failed .. => inferInstanceAs (Decidable (_ → _))
  | .progress .. => inferInstanceAs (Decidable (_ → _))
  | .delivered .. => inferInstanceAs (Decidable (_ → _))
  | .tick .. => inferInstanceAs (Decidable (_ → _))
end

/-! ### What a call leaves for a rebalance -/

/-- A step that changes one lane only, and gives origin nothing to move. -/
structure Aside (s : Source) (t t' : Transfer) : Prop where
  lanes : ∀ s', s' ≠ s → t'.lanes.get? s' = t.lanes.get? s'
  probes : ∀ s', s' ≠ s → s' ∈ t.probePeers → s' ∈ t'.probePeers
  floor : t'.floorReached = t.floorReached
  owes : t'.owes = true → t.owes = true

section
variable {s : Source}

theorem Aside.refl (t : Transfer) : Aside s t t := ⟨fun _ _ => rfl,fun _ _ => id,rfl,id⟩
theorem Aside.trans {a b c : Transfer} (one : Aside s a b) (two : Aside s b c) : Aside s a c :=
  ⟨fun s' differs => (two.lanes s' differs).trans (one.lanes s' differs),
    fun s' differs => two.probes s' differs ∘ one.probes s' differs,two.floor.trans one.floor,one.owes ∘ two.owes⟩
theorem Aside.modify (t : Transfer) {f : Lane → Lane} (idle : s = .origin → ∀ lane, t.lanes.get? s = some lane →
    (lane.queue = [] → (f lane).queue = []) ∧ (lane.work = [] → (f lane).work = [])) :
    Aside s t { t with lanes := t.lanes.modify s f } := by
  refine ⟨fun s' differs => OrderedMap.get?_modify_of_ne _ f differs,fun _ _ => id,rfl,fun owes => ?_⟩
  unfold Transfer.owes at owes ⊢
  dsimp only at owes
  by_cases own : Source.origin = s
  · rw [OrderedMap.get?_modify,if_pos own] at owes
    cases found : t.lanes.get? .origin with
    | none =>
      rw [found] at owes
      cases owes
    | some lane =>
      rw [found] at owes
      obtain ⟨queue,work⟩ := idle own.symm lane (own ▸ found)
      refine decide_eq_true (fun empty => of_decide_eq_true owes ?_)
      split_ifs at empty ⊢
      · exact queue empty
      · exact work empty
  · rwa [OrderedMap.get?_modify,if_neg own] at owes
theorem Aside.issue (t : Transfer) (now : Nat) : Aside s t (t.issue now s) := by
  unfold Transfer.issue
  cases found : t.lanes.get? s with
  | none => exact .refl t
  | some lane =>
    dsimp only
    split_ifs
    · exact .refl t
    all_goals
      generalize sent : sendQueue _ _ _ _ _ lane.queue = dealt
      have none : lane.queue = [] → dealt = ([],[]) := by
        intro empty
        rw [← sent,empty]
        rfl
      have one : Aside s t { t with lanes := t.lanes.modify s (fun lane => lane.sending now dealt.1 dealt.2) } := by
        refine Aside.modify t (fun _ other held => ?_)
        rw [found] at held
        cases held
        constructor
        · intro empty
          rw [none empty]
          exact (sending_work lane now [] []).2.1
        · intro empty
          obtain ⟨flight,queue⟩ := List.append_eq_nil_iff.mp empty
          rw [none queue,(sending_work lane now [] []).1,flight]
          rfl
      exact ⟨one.lanes,one.probes,one.floor,one.owes⟩
theorem Aside.extend (t : Transfer) (now p : Nat) (ranges : List PieceRange) (finishAt : ℚ → ℚ) :
    Aside (.peer p) t ((t.extendQueue (.peer p) ranges finishAt).issue now (.peer p)) :=
  (Aside.modify t (fun own => by cases own)).trans (Aside.issue _ now)
theorem Aside.movable (aside : Aside s t t') (keyed : Keyed t) (picked : p ∈ t'.movable) :
    .peer p = s ∨ p ∈ t.movable := by
  by_cases own : .peer p = s
  · exact .inl own
  unfold Transfer.movable at picked ⊢
  split_ifs at picked with some
  · obtain ⟨lane,found,use,other,idle⟩ := mem_peersWith.mp picked
    rw [aside.lanes _ own] at found
    rw [keyed _ _ found] at other
    rw [if_pos ⟨aside.floor ▸ some.1,aside.owes some.2⟩]
    refine .inr (mem_peersWith.mpr ⟨lane,found,use,?_,idle⟩)
    rw [keyed _ _ found]
    exact fun probe => other (aside.probes _ own probe)
  · exact absurd picked (Finset.notMem_empty p)
end

/-- Lanes differ only in when they were judged. -/
structure Noted (t u : Transfer) : Prop where
  rest : u = { t with lanes := u.lanes }
  lane : ∀ s, ∃ checkedAt, t.lanes.get? s = (u.lanes.get? s).map (fun lane => { lane with checkedAt := checkedAt })

section
variable {t u : Transfer}

theorem Noted.refl (t : Transfer) : Noted t t := by
  refine ⟨rfl,fun s => ?_⟩
  cases t.lanes.get? s with
  | none => exact ⟨0,rfl⟩
  | some lane => exact ⟨lane.checkedAt,rfl⟩
theorem Noted.next (noted : Noted t u) (s : Source) (now : Nat) :
    Noted t { u with lanes := u.lanes.modify s (fun lane => { lane with checkedAt := now }) } := by
  refine ⟨by rw [noted.rest],fun s' => ?_⟩
  obtain ⟨checkedAt,same⟩ := noted.lane s'
  refine ⟨checkedAt,?_⟩
  dsimp only
  rw [same,OrderedMap.get?_modify]
  split_ifs
  · rw [Option.map_map]
    rfl
  · rfl
theorem Noted.found (noted : Noted t u) {s : Source} {lane : Lane} (found : u.lanes.get? s = some lane) :
    ∃ checkedAt, t.lanes.get? s = some { lane with checkedAt := checkedAt } := by
  obtain ⟨checkedAt,same⟩ := noted.lane s
  exact ⟨checkedAt,by rw [same,found]; rfl⟩
theorem Noted.hopeless (noted : Noted t u) (now : Nat) (s : Source) : u.hopeless now s = t.hopeless now s := by
  obtain ⟨checkedAt,same⟩ := noted.lane s
  rw [noted.rest]
  unfold Transfer.hopeless silenceAt
  dsimp only
  rw [same]
  cases u.lanes.get? s <;> rfl
theorem Noted.keyed (noted : Noted t u) (keyed : Keyed t) : Keyed u := by
  intro s lane found
  obtain ⟨_,before⟩ := noted.found found
  have same := keyed s _ before
  exact same
theorem Noted.gains (noted : Noted t u) : Gains false [] t u := by
  rw [noted.rest]
  refine ⟨rfl,rfl,fun p lane found use => .inr ?_⟩
  obtain ⟨_,before⟩ := noted.found found
  exact ⟨_,before,use⟩
theorem Noted.movable (noted : Noted t u) (picked : p ∈ u.movable) : p ∈ t.movable := by
  obtain ⟨checkedAt,home⟩ := noted.lane .origin
  have owes : u.owes = t.owes := by
    rw [noted.rest]
    unfold Transfer.owes
    dsimp only
    rw [home]
    cases u.lanes.get? .origin <;> rfl
  unfold Transfer.movable at picked ⊢
  rw [owes,show u.floorReached = t.floorReached by rw [noted.rest]] at picked
  split_ifs at picked ⊢
  · obtain ⟨lane,found,use,free⟩ := mem_peersWith.mp picked
    obtain ⟨_,before⟩ := noted.found found
    refine mem_peersWith.mpr ⟨_,before,use,?_⟩
    rw [noted.rest] at free
    exact free
  · exact picked
theorem Noted.target (noted : Noted t u) (chosen : u.endgameTarget now = some (.peer p)) :
    t.lags now = true ∧ p ∈ t.idlers := by
  constructor
  · unfold endgameTarget at chosen
    by_cases quiet : u.endgamePieces = [] ∨ ∀ lane ∈ u.lanes.values, lane.inFlight = [] ∨
        (∀ index ∈ u.endgamePieces, ¬ lane.holds index) ∨ (now : ℚ) < lane.finishAt
    · rw [if_pos quiet] at chosen
      cases chosen
    · push Not at quiet
      obtain ⟨_,lane,listed,flies,⟨index,piece,holds⟩,late⟩ := quiet
      obtain ⟨s,found⟩ := OrderedMap.mem_values.mp listed
      obtain ⟨_,before⟩ := noted.found found
      rw [noted.rest] at piece
      exact List.any_eq_true.mpr ⟨_,OrderedMap.mem_values.mpr ⟨s,before⟩,
        decide_eq_true ⟨flies,⟨index,piece,holds⟩,late⟩⟩
  · rcases endgameTarget_cases chosen with ⟨lane,found,use,idle,_⟩ | ⟨own,_⟩
    · obtain ⟨_,before⟩ := noted.found found
      exact mem_peersWith.mpr ⟨_,before,use,idle⟩
    · cases own
theorem judge_patient (now : Nat) (sources : List Source) : ∀ {u : Transfer}, Noted t u → u.finished = false →
    (∀ s ∈ sources, t.hopeless now s = false) → ∃ v, Noted t v ∧
      judge now sources u = (v.endgame now).rebalanceOrigin now := by
  induction sources with
  | nil => exact fun noted _ _ => ⟨_,noted,rfl⟩
  | cons s rest ih =>
    intro u noted running patient
    unfold judge
    rw [if_neg (by rw [running]; exact Bool.false_ne_true),
      if_neg (by rw [noted.hopeless,patient s List.mem_cons_self]; exact Bool.false_ne_true)]
    exact ih (noted.next s now) running (fun s' member => patient s' (List.mem_cons_of_mem _ member))
end

/-! ### A mixed transfer keeps the limit -/

theorem workers_usable (t : Transfer) : t.workers ⊆ t.usable := by
  intro p working
  obtain ⟨lane,found,work⟩ := mem_workers.mp working
  exact mem_peersWith.mpr ⟨lane,found,.inl work⟩
/-- A step that keeps the limit. -/
structure Holds (t t' : Transfer) : Prop where
  config : t'.config = t.config
  mode : t'.peerOnly = t.peerOnly
  limited : Limited t'

section
variable {wide : Bool} {sources : List Source} {t u t' : Transfer}

theorem Holds.refl (limited : Limited t) : Holds t t := ⟨rfl,rfl,limited⟩
theorem Limited.holds (limited : Limited t) (gains : Gains false [] t t') : Holds t t' :=
  ⟨gains.config,gains.mode,limited.idle gains⟩
theorem Holds.after (gains : Gains wide sources t u) (holds : Holds u t') : Holds t t' :=
  ⟨holds.config.trans gains.config,holds.mode.trans gains.mode,holds.limited⟩
theorem Holds.among {few : Finset Nat} (gains : Gains wide sources t t') (among : t'.workers ⊆ few)
    (fit : few.card ≤ t.holderLimit) : Holds t t' := by
  refine ⟨gains.config,gains.mode,?_⟩
  unfold Limited
  rw [show t'.holderLimit = t.holderLimit by unfold holderLimit; rw [gains.config]]
  exact le_trans (Finset.card_le_card among) fit
theorem Draws.holds (draws : Draws t t') (fit : t.usable.card ≤ t.holderLimit) : Holds t t' :=
  .among draws.gains ((workers_usable t').trans draws.gains.usable) fit
end
theorem Quiet.gains (quiet : Quiet t t') (config : t'.config = t.config) : Gains wide [] t t' := by
  refine ⟨config,quiet.works.peerOnly,fun p lane' found use => .inr ?_⟩
  obtain ⟨lane,before,same⟩ := quiet.before found
  refine ⟨lane,before,?_⟩
  rcases use with work | ⟨own,kept⟩
  · exact .inl (fun empty => work (by rw [← Lane.post_work same]; exact empty))
  · exact .inr ⟨own,(Lane.post_eq same).2.2.1.trans kept⟩
theorem leaves_limited {t u : Transfer} {s : Source} (mixed : t.peerOnly = false) (keyed : Keyed t)
    (few : (t.usable \ peersOf [s]).card ≤ t.holderLimit)
    (after : (t.retire s).1.peerOnly = false → Keyed (t.retire s).1 → Draws (t.retire s).1 u) : Holds t u := by
  have taken : Gains true [] t (t.retire s).1 := retire_gains t s
  have draws := after (taken.mode.trans mixed) (retire_keyed keyed s)
  exact .among (taken.trans draws.gains)
    ((workers_usable u).trans (draws.gains.usable.trans (retire_usable t s))) few
theorem reassigned_limited {t : Transfer} {s : Source} (mixed : t.peerOnly = false) (keyed : Keyed t)
    (few : (t.usable \ peersOf [s]).card ≤ t.holderLimit)
    (now : Nat) : Holds t ((t.reassign now s).rebalanceOrigin now) :=
  leaves_limited mixed keyed few (fun mixed keyed =>
    (assign_draws mixed keyed now _).next mixed (fun _ keyed => rebalance_draws keyed now))
theorem failed_roomy (mixed : t.peerOnly = false) (keyed : Keyed t) (limited : Limited t) (now : Nat) (s : Source)
    (few : t.serves s = true → (t.usable \ peersOf [s]).card ≤ t.holderLimit) : Holds t (t.failed now s) := by
  unfold failed
  by_cases rests : t.finished = true
  · rw [if_pos rests]
    exact .refl limited
  rw [if_neg rests]
  cases s with
  | origin =>
    rw [if_pos rfl,if_neg (by simp [mixed])]
    exact limited.holds (fail_gains t)
  | peer p =>
    rw [if_neg (by simp)]
    cases found : t.lanes.get? (.peer p) with
    | none => exact .refl limited
    | some lane =>
      dsimp only
      cases gone : lane.retired with
      | true =>
        rw [if_pos rfl]
        exact .refl limited
      | false =>
        rw [if_neg Bool.false_ne_true]
        exact reassigned_limited mixed keyed (few (by simp [serves,found,gone])) now
theorem abandon_roomy {t : Transfer} (mixed : t.peerOnly = false) (keyed : Keyed t) (limited : Limited t) (now : Nat)
    (s : Source) (few : (t.usable \ peersOf [s]).card ≤ t.holderLimit) : Holds t (t.abandon now s) := by
  cases s with
  | origin => exact .refl limited
  | peer p => exact .after (push_draws keyed (.abandon p)).gains (@reassigned_limited (t.push (.abandon p)) (.peer p)
    mixed keyed few now)
theorem endgame_aside (chosen : t.endgameTarget now = some (.peer p)) :
    Aside (.peer p) t (t.endgame now) := by
  rw [endgame_target,chosen]
  exact List.foldlRecOn (motive := Aside (.peer p) t) _ _
    (⟨fun _ _ => rfl,fun _ _ => id,rfl,id⟩ : Aside (.peer p) t t.markDuplicated)
    (fun _ aside range _ => aside.trans (Aside.extend _ now p [range] id))
theorem endgame_crowded (mixed : t.peerOnly = false) (chosen : t.endgameTarget now = some .origin) :
    (t.endgame now).movable = ∅ := by
  have crowded : ∀ entry ∈ t.livePeers, ¬ entry.2.idle := by
    rcases endgameTarget_cases chosen with ⟨_,_,_,_,_,peer⟩ | ⟨_,_,crowded⟩
    · cases peer mixed
    · exact crowded
  have lanes : (t.endgame now).peerOnly = false ∧
      ∀ p, (t.endgame now).lanes.get? (.peer p) = t.lanes.get? (.peer p) := by
    rw [endgame_target,chosen]
    refine List.foldlRecOn (motive := fun u : Transfer => u.peerOnly = false ∧
      ∀ p, u.lanes.get? (.peer p) = t.lanes.get? (.peer p))
      _ _ ⟨mixed,fun _ => rfl⟩ (fun u kept range _ => ?_)
    have moves : Gains false [] u (u.queueOrigin now range) := queueOrigin_gains kept.1 now range
    have same : ∀ p, (u.queueOrigin now range).lanes.get? (.peer p) = u.lanes.get? (.peer p) := by
      intro p
      unfold queueOrigin
      rw [if_neg (by simp [kept.1]),(Aside.issue _ now).lanes _ (by simp)]
      unfold extendQueue
      dsimp only
      rw [OrderedMap.get?_modify_of_ne _ _ (by simp),openLane_get,if_neg (by simp)]
    exact ⟨moves.mode.trans kept.1,fun p => (same p).trans (kept.2 p)⟩
  unfold movable
  split_ifs
  · refine Finset.eq_empty_of_forall_notMem (fun p picked => ?_)
    obtain ⟨lane,found,use,_,idle,_⟩ := mem_peersWith.mp picked
    rw [lanes.2] at found
    exact crowded (.peer p,lane) (mem_livePeers.mpr ⟨found,rfl,use⟩) idle
  · rfl
theorem tick_roomy (mixed : t.peerOnly = false) (keyed : Keyed t) (limited : Limited t) (now : Nat)
    (roomy : t.floorReached = true ∨ now < t.floorAt →
      if ∃ s ∈ t.watched, t.hopeless now s = true then t.usable.card ≤ t.holderLimit
      else t.workers.card + t.movable.card + (if t.lags now = true ∧ t.idlers.Nonempty then 1 else 0) ≤ t.holderLimit) :
    Holds t (t.tick now) := by
  unfold tick
  by_cases rests : t.finished = true
  · rw [if_pos rests]
    exact .refl limited
  rw [if_neg rests,if_neg (by simp [mixed])]
  by_cases floor : t.floorReached = false ∧ t.floorAt ≤ now
  · rw [if_pos floor]
    exact limited.holds (reachFloor_gains mixed now)
  rw [if_neg floor]
  have room := roomy (by
    by_contra neither
    obtain ⟨early,late⟩ := not_or.mp neither
    exact floor ⟨by simpa using early,not_lt.mp late⟩)
  change Holds t (judge now t.watched t)
  by_cases lost : ∃ s ∈ t.watched, t.hopeless now s = true
  · rw [if_pos lost] at room
    exact (judge_draws now t.watched mixed keyed).holds room
  rw [if_neg lost] at room
  obtain ⟨v,noted,same⟩ := judge_patient now t.watched (.refl t) (by simpa using rests)
    (fun s member => by
      by_contra hopeless
      exact lost ⟨s,member,by simpa using hopeless⟩)
  have keyed' := noted.keyed keyed
  have dealt : Gains false _ v (v.endgame now) := endgame_gains v now (fun _ => noted.gains.mode.trans mixed)
  have gains := (noted.gains.trans dealt).trans (rebalanceOrigin_gains (v.endgame now) now)
  have left : ∀ p ∈ (v.endgame now).movable, p ∈ peersOf (v.endgameTarget now).toList ∨ p ∈ t.movable := by
    intro p picked
    cases chosen : v.endgameTarget now with
    | none =>
      rw [endgame_idle chosen] at picked
      exact .inr (noted.movable picked)
    | some s =>
      cases s with
      | origin =>
        rw [endgame_crowded (noted.gains.mode.trans mixed) chosen] at picked
        exact absurd picked (Finset.notMem_empty p)
      | peer q =>
        exact ((endgame_aside chosen).movable keyed' picked).imp (fun own => mem_peersOf.mpr (by simp [own]))
          noted.movable
  have one : (peersOf (v.endgameTarget now).toList).card ≤ if t.lags now = true ∧ t.idlers.Nonempty then 1 else 0 := by
    cases chosen : v.endgameTarget now with
    | none => exact Nat.zero_le _
    | some s =>
      cases s with
      | origin => exact Nat.zero_le _
      | peer p =>
        obtain ⟨lags,idles⟩ := noted.target chosen
        rw [if_pos ⟨lags,p,idles⟩]
        exact peersOf_card [.peer p]
  rw [same]
  refine @Holds.among _ _ t _ (t.workers ∪ peersOf (v.endgameTarget now).toList ∪ t.movable) gains
    (fun p working => ?_) ?_
  · have held := gains.workers working
    simp only [Finset.mem_union,mem_peersOf,List.nil_append,List.mem_append] at held ⊢
    rcases held with worked | picked | picked
    · exact .inl (.inl worked)
    · exact .inl (.inr picked)
    · exact (left p (moved_movable (endgame_keyed keyed' now) picked)).imp
        (fun target => .inr (mem_peersOf.mp target)) id
  · have sum := Finset.card_union_le (t.workers ∪ peersOf (v.endgameTarget now).toList) t.movable
    have first := Finset.card_union_le t.workers (peersOf (v.endgameTarget now).toList)
    omega
theorem progress_roomy (mixed : t.peerOnly = false) (keyed : Keyed t) (limited : Limited t) (now : Nat) (s : Source)
    (received : Nat) (roomy : t.floorReached = false → (t.progressed now s received).hopeless now s = true →
      (t.usable \ peersOf [s]).card ≤ t.holderLimit) : Holds t (t.progress now s received) := by
  unfold progress
  rw [if_neg (show ¬ (t.peerOnly = true ∧ t.floorAt ≤ now) by simp [mixed])]
  by_cases rests : t.finished = true ∨ t.floorReached = true
  · rw [if_pos rests]
    exact .refl limited
  rw [if_neg rests]
  cases t.lanes.get? s with
  | none => exact .refl limited
  | some lane =>
    dsimp only
    split_ifs with useless hopeless
    · exact .refl limited
    · have told : Gains true [] t (t.progressed now s received) := Gains.modify t s (fun _ => id) (fun _ => id)
      have room := roomy (by simpa using (not_or.mp rests).2) hopeless
      have idle : Limited (t.progressed now s received) := limited.idle (Gains.modify t s (fun _ => id) (fun _ => id))
      have still : Keyed (t.progressed now s received) := KeyedLanes.modify keyed (fun _ => rfl)
      exact .after told (@abandon_roomy (t.progressed now s received) mixed still idle now s
        (le_trans (Finset.card_le_card (Finset.sdiff_subset_sdiff told.usable (Finset.Subset.refl _))) room))
    · exact limited.holds (Gains.modify t s (fun _ => id) (fun _ => id))
theorem finish_gains (sha256 : List UInt8 → Digest) (t : Transfer) : Gains wide [] t (t.finish sha256) := by
  unfold finish
  split_ifs
  · exact fail_gains t
  · exact (closeOut_gains t).idle (Gains.same rfl rfl rfl)
theorem credited_gains (c : Checked) (source : Source) : Gains wide [] c.transfer (credited c source) := by
  unfold credited
  split_ifs
  · exact Gains.same rfl rfl rfl
  · exact Gains.refl _
theorem credited_aside (c : Checked) (source : Source) : Aside source c.transfer (credited c source) := by
  unfold credited
  split_ifs
  · exact ⟨fun _ _ => rfl,fun _ differs member => Finset.mem_erase.mpr ⟨differs,member⟩,rfl,id⟩
  · exact .refl _
theorem measure_aside (t : Transfer) (now : Nat) (s : Source) (sent : Nat) (first : Option Nat) (bytes : Nat) :
    Aside s t (t.measure now s sent first bytes) := by
  unfold measure
  cases t.lanes.get? s with
  | none => exact .refl t
  | some lane =>
    dsimp only
    split_ifs
    · exact .refl t
    · exact Aside.modify t (fun _ _ _ => ⟨id,id⟩)

section
variable (sha256 : List UInt8 → Digest)

theorem response_gains {wide : Bool} (t : Transfer) (source : Source) (range : PieceRange) (bytes : List UInt8) :
    Gains wide [] t (response sha256 t source range bytes).transfer ∧
      Aside source t (response sha256 t source range bytes).transfer := by
  obtain ⟨frame,_⟩ := checkPieces_frame sha256 bytes (t.pieceRangeBytes range).1 range.indices
    ⟨{ t with lanes := t.lanes.modify source (fun lane => lane.answered range) },false,false⟩
  have empty : ∀ lane : Lane, lane.work = [] → (lane.answered range).work = [] := by
    intro lane none
    obtain ⟨flight,queue⟩ := List.append_eq_nil_iff.mp none
    simp [Lane.work,Lane.answered,List.map_eq_nil_iff.mp flight,queue]
  have aside : Aside source t { t with lanes := t.lanes.modify source (fun lane => lane.answered range) } :=
    Aside.modify t (fun _ lane _ => ⟨id,empty lane⟩)
  unfold response
  rw [frame]
  exact ⟨(Gains.modify t source (f := fun lane => lane.answered range) empty (fun _ => id)).idle
    (Gains.same rfl rfl rfl),⟨aside.lanes,aside.probes,aside.floor,aside.owes⟩⟩
theorem response_verified (t : Transfer) (source : Source) (range : PieceRange) (bytes : List UInt8) : ∀ i,
    (response sha256 t source range bytes).transfer.isVerified i = true → t.isVerified i = true ∨
      i ∈ range.indices := by
  unfold response
  refine List.foldlRecOn (motive := fun c : Checked => ∀ i, c.transfer.isVerified i = true → t.isVerified i = true ∨
    i ∈ range.indices)
    _ _ (fun _ => .inl) (fun c kept index member i verified => ?_)
  unfold checkPiece at verified
  dsimp only at verified
  split_ifs at verified
  · exact kept i verified
  · by_cases own : i = index
    · exact .inr (own ▸ member)
    · refine kept i ?_
      unfold isVerified at verified ⊢
      dsimp only at verified
      rwa [List.getD_eq_getElem?_getD,List.getElem?_set_ne (Ne.symm own),← List.getD_eq_getElem?_getD] at verified
  · exact kept i verified
theorem accept_roomy (mixed : t.peerOnly = false) (keyed : Keyed t) (limited : Limited t) {s : Source}
    {range : PieceRange} {lane : Lane} (found : t.lanes.get? s = some lane) (flies : lane.inFlight ≠ [])
    (bytes : List UInt8)
    (sent : Nat) (first : Option Nat) (length : Nat)
    (room : if (t.overtaken s range).Nonempty then t.usable.card ≤ t.holderLimit
      else (t.workers ∪ t.movable).card ≤ t.holderLimit) :
    Holds t (accept sha256 (response sha256 t s range bytes) now s sent first length) := by
  have taken : ∀ wide, Gains wide [] t (response sha256 t s range bytes).transfer :=
    fun wide => (response_gains sha256 t s range bytes).1
  have checked := (@response_gains sha256 false t s range bytes).2
  have verified := response_verified sha256 t s range bytes
  have filed : Keyed (response sha256 t s range bytes).transfer :=
    checkPieces_keyed sha256 bytes _ _ (KeyedLanes.modify keyed (fun _ => rfl))
  generalize response sha256 t s range bytes = c at *
  have quiet := measure_quiet (credited c s) now s sent first length
  have measured : ∀ wide, Gains wide [] t ((credited c s).measure now s sent first length) :=
    fun wide => ((taken wide).idle (credited_gains c s)).idle (quiet.gains (congrArg Fixed.config quiet.fixed))
  have aside := (checked.trans (credited_aside c s)).trans (measure_aside (credited c s) now s sent first length)
  obtain ⟨probes,available,frame⟩ := credited_frame c s
  have keyed' : Keyed ((credited c s).measure now s sent first length) :=
    measure_keyed (by rw [frame]; exact filed) now s sent first length
  have known : ((credited c s).measure now s sent first length).verified = c.transfer.verified :=
    (congrArg Fixed.verified quiet.fixed).trans (show (credited c s).verified = c.transfer.verified by rw [frame])
  have same : accept sha256 c now s sent first length = if (accepted c now s sent first length).verified.all id = true
      then (accepted c now s sent first length).finish sha256
      else ((accepted c now s sent first length).issue now s).refill now := rfl
  rw [same]
  unfold accepted
  generalize (credited c s).measure now s sent first length = u at *
  have refills : ∀ v : Transfer, v.peerOnly = false →
      (v.issue now s).refill now = (v.issue now s).rebalanceOrigin now := by
    intro v mode
    have issued : Gains false [] v (v.issue now s) := issue_gains v now s
    rw [refill,if_neg (by rw [issued.mode,mode]; exact Bool.false_ne_true)]
  by_cases crowded : (t.overtaken s range).Nonempty
  · rw [if_pos crowded] at room
    have dropped : Draws t (u.dropRedundant now s) := (⟨measured true,keyed'⟩ : Draws t u).next mixed (drop_draws now _)
    refine Draws.holds (dropped.next mixed (fun mode keyed => ?_)) room
    split_ifs
    · refine ⟨finish_gains sha256 _,?_⟩
      unfold finish
      split_ifs
      · exact fail_keyed keyed
      · exact fail_keyed keyed
    · rw [refills _ mode]
      exact (⟨issue_gains _ now s,issue_keyed keyed now s⟩ : Draws _ ((u.dropRedundant now s).issue now s)).next mode
        (fun _ keyed => rebalance_draws keyed now)
  · rw [if_neg crowded] at room
    have kept : u.dropRedundant now s = u := by
      unfold dropRedundant
      dsimp only
      rw [List.filter_eq_nil_iff.mpr]
      · rfl
      rintro ⟨source,other⟩ listed redundant
      obtain ⟨differs,peer,use,busy,all⟩ := of_decide_eq_true redundant
      dsimp only at differs peer use busy all
      cases source with
      | origin => cases peer
      | peer p =>
        have before := OrderedMap.mem_entries.mp listed
        rw [aside.lanes _ differs] at before
        refine crowded ⟨p,Finset.mem_sdiff.mpr
          ⟨mem_peersWith.mpr ⟨other,before,use,busy,fun flying member index holds => ?_⟩,fun own => ?_⟩⟩
        · refine verified index ?_
          rw [← verified_same known]
          exact all flying member index holds
        · exact differs (List.mem_singleton.mp (mem_peersOf.mp own))
    rw [kept]
    split_ifs
    · exact limited.holds ((measured false).idle (finish_gains sha256 u))
    · rw [refills u ((measured false).mode.trans mixed)]
      have gains := ((measured false).idle (issue_gains u now s)).trans (rebalanceOrigin_gains (u.issue now s) now)
      refine .among gains (fun p working => ?_) room
      have held := gains.workers working
      simp only [Finset.mem_union,mem_peersOf,List.nil_append] at held ⊢
      refine held.elim .inl (fun picked => ?_)
      rcases (aside.trans (Aside.issue u now)).movable keyed (moved_movable (issue_keyed keyed' now s) picked)
        with own | idle
      · refine .inl (mem_workers.mpr ⟨lane,by rw [own]; exact found,fun none => flies ?_⟩)
        exact List.map_eq_nil_iff.mp (List.append_eq_nil_iff.mp none).1
      · exact .inr idle
theorem delivered_roomy (mixed : t.peerOnly = false) (keyed : Keyed t) (limited : Limited t) (now : Nat) (s : Source)
    (range : PieceRange) (bytes : List UInt8) (roomy : Roomy sha256 t (.delivered now s range bytes)) :
    Holds t (t.delivered sha256 now s range bytes) := by
  unfold delivered
  rw [if_neg (show ¬ (t.peerOnly = true ∧ t.floorAt ≤ now) by simp [mixed])]
  by_cases rests : t.finished = true
  · rw [if_pos rests]
    exact .refl limited
  rw [if_neg rests]
  cases found : t.lanes.get? s with
  | none => exact .refl limited
  | some lane =>
    dsimp only
    cases seen : lane.inFlight.find? (·.1 = range) with
    | none => exact .refl limited
    | some flying =>
      obtain ⟨asked,sent⟩ := flying
      have member := List.mem_of_find?_eq_some seen
      have chosen := List.find?_some seen
      have room := roomy (by
        simp only [awaits,found,Option.any_some]
        exact List.any_eq_true.mpr ⟨_,member,chosen⟩)
      dsimp only
      by_cases short : bytes.length ≠ (t.pieceRangeBytes range).2 - (t.pieceRangeBytes range).1
      · rw [if_pos short]
        rw [if_pos (.inl short)] at room
        exact failed_roomy mixed keyed limited now s (fun _ => room)
      rw [if_neg short]
      obtain ⟨taken,_⟩ := @response_gains sha256 true t s range bytes
      have filed : Keyed (response sha256 t s range bytes).transfer :=
        checkPieces_keyed sha256 bytes _ _ (KeyedLanes.modify keyed (fun _ => rfl))
      show Holds t (if (response sha256 t s range bytes).bad = true then _ else _)
      by_cases bad : (response sha256 t s range bytes).bad = true
      · rw [if_pos bad]
        rw [if_pos (.inr bad)] at room
        cases s with
        | origin => exact limited.holds ((@response_gains sha256 false t _ range bytes).1.idle (fail_gains _))
        | peer p =>
          refine .after (taken.idle (push_draws filed (.ban p)).gains) (@leaves_limited
            ((response sha256 t (.peer p) range bytes).transfer.push (.ban p)) _ (.peer p) (taken.mode.trans mixed)
            filed ?_ (fun mixed keyed => assign_draws mixed keyed now _))
          have limit : (response sha256 t (.peer p) range bytes).transfer.holderLimit = t.holderLimit := by
            unfold holderLimit
            rw [taken.config]
          exact le_trans (Finset.card_le_card (Finset.sdiff_subset_sdiff taken.usable (Finset.Subset.refl _)))
            (room.trans_eq limit.symm)
      · rw [if_neg bad]
        rw [if_neg (show ¬ (bytes.length ≠ t.rangeLength range ∨ _) from not_or.mpr ⟨short,bad⟩)] at room
        exact accept_roomy sha256 mixed keyed limited found (List.ne_nil_of_mem member) bytes sent
          lane.firstByteAt _ room
end
/-! ### A peer-only transfer -/

theorem workers_active (orderly : Orderly t) : t.workers.card ≤ t.activePeerOnlyHolders := by
  have active : t.activePeerOnlyHolders =
      ((t.lanes.entries.filter (fun entry => entry.2.retired = false ∧ ¬ entry.2.idle)).map (·.1)).length := by
    unfold activePeerOnlyHolders OrderedMap.values
    rw [List.filter_map,List.length_map,List.length_map]
    rfl
  rw [active]
  refine le_trans (Finset.card_le_card (fun p working => ?_)) (peersOf_card _)
  obtain ⟨lane,found,work⟩ := mem_workers.mp working
  refine mem_peersOf.mpr (List.mem_map.mpr ⟨(.peer p,lane),
    List.mem_filter.mpr ⟨OrderedMap.mem_entries.mpr found,?_⟩,rfl⟩)
  have used : lane.retired = false := by
    by_contra gone
    exact work (orderly.gone _ lane found (by simpa using gone))
  refine decide_eq_true ⟨used,fun idle => work ?_⟩
  obtain ⟨flight,queue⟩ : lane.inFlight = [] ∧ lane.queue = [] := idle
  simp [Lane.work,flight,queue]
theorem spares_slots (orderly : Orderly t)
    (few : (peersOf sources).card ≤ t.holderSlots) : Spares t sources := by
  have working := workers_active orderly
  have picks := Finset.card_le_card (Finset.sdiff_subset (s := peersOf sources) (t := t.workers))
  unfold Spares holderLimit
  unfold holderSlots at few
  omega
theorem refillAssignment_gains (now : Nat) (t : Transfer) (a : Assignment) :
    Gains false [a.source] t (refillAssignment now t a) := by
  unfold refillAssignment
  cases t.lanes.get? a.source with
  | none => exact (Gains.refl t).wider (by simp)
  | some lane =>
    have extended : Gains false _ t _ := extendQueue_gains t a.source a.ranges (fun _ => projection now a)
    refine Gains.idle (b := { t.extendQueue a.source a.ranges (fun _ => projection now a) with
      peerPending := t.peerPending.filter (fun index => index ∉ indices a.ranges) }) ?_ (issue_gains _ now a.source)
    exact extended.idle (Gains.same rfl rfl rfl)
theorem refillIdle_limited (orderly : Orderly t) (limited : Limited t) (now : Nat)
    (free : t.holderSlots ≠ 0) : Limited (t.refillIdle now t.holderSlots) := by
  unfold refillIdle
  dsimp only
  split_ifs
  · exact limited
  · generalize shape : PlanInput.mk _ _ _ _ _ _ _ _ = input
    have noOrigin : input.origin = none := by rw [← shape]
    have slots : input.maxHolders = t.holderSlots := by rw [← shape]
    obtain ⟨sources,few,within⟩ := plan_holders input
    have gains : Gains false sources t ((plan input).assignments.foldl (refillAssignment now)
        { t with late := (plan input).late }) := by
      refine Gains.wider ((Gains.same rfl rfl rfl : Gains false [] t { t with late := (plan input).late }).trans
        (Gains.folds (fun a member u => (refillAssignment_gains now u a).wider ?_) _)) (fun p member => member)
      intro p own
      rw [List.mem_singleton] at own
      rcases within a member with listed | ⟨e,found,_⟩
      · rw [own]; exact listed
      · rw [noOrigin] at found; cases found
    refine limited.gains gains (spares_slots orderly (le_trans (peersOf_card sources) ?_))
    rw [slots] at few
    omega
theorem refillProbes_gains (now : Nat) (probes : List Source) : ∀ t :
    Transfer, Gains false probes t (refillProbes now probes t) := by
  induction probes with
  | nil => intro t; exact Gains.refl t
  | cons s rest ih =>
    intro t
    unfold refillProbes
    cases t.peerPending with
    | nil => exact (Gains.refl t).wider (by simp)
    | cons index pending =>
      obtain ⟨finishAt,late,same⟩ := refillProbe_given t now s index pending
      have one : Gains false [s] t (refillProbe now t s index pending) := by
        rw [same]
        exact (extend_gains t now s _ finishAt).idle (Gains.same rfl rfl rfl)
      exact one.trans (ih _)
theorem refillPeerOnly_limited (ready : Ready t) (limited : Limited t) (now : Nat) :
    Limited (t.refillPeerOnly now) := by
  unfold refillPeerOnly
  dsimp only
  split_ifs with early floor dead full
  · exact limited
  · exact limited.idle ((Gains.same rfl rfl rfl : Gains false [] t { t with floorReached := true }).idle (fail_gains _))
  all_goals have pruned : Limited t.prunePending := limited.idle (Gains.same rfl rfl rfl)
  · exact pruned.idle (fail_gains _)
  · exact pruned
  · have ready' := Give.ready (.notes (prunePending_quiet t)) ready
    have idle := refillIdle_limited ready'.orderly pruned now (not_or.mp full).1
    have after := (refillIdle_acts ready' (prunePending_bare t) now t.prunePending.holderSlots).1.ready ready'
    refine idle.gains (refillProbes_gains now _ _) (spares_slots after.orderly (le_trans (peersOf_card _) ?_))
    exact List.length_take_le _ _
theorem assign_limited (ready : Ready t) (only : t.peerOnly = true) (limited : Limited t) (now : Nat)
    (needed : List Nat) : Limited (t.assign now needed) := by
  unfold assign
  rw [if_pos only]
  have quiet := pends_quiet needed t
  exact refillPeerOnly_limited (Give.ready (.notes quiet) ready)
    (limited.idle (quiet.gains (congrArg Fixed.config quiet.fixed))) now
theorem reassign_limited (ready : Ready t) (only : t.peerOnly = true) (limited : Limited t) (now p : Nat) :
    Limited (t.reassign now (.peer p)) :=
  assign_limited (retire_ready ready p) ((retire_works t _).peerOnly.trans only) (limited.idle (retire_gains t _)) now _
theorem endgame_limited (ready : Ready t) (only : t.peerOnly = true) (limited : Limited t) (now : Nat) :
    Limited (t.endgame now) := by
  have homeless : t.endgameTarget now = some .origin → t.peerOnly = false := by
    intro chosen
    rcases endgameTarget_cases chosen with ⟨lane,found,_⟩ | ⟨_,mixed,_⟩
    · rw [ready.homeless only] at found
      cases found
    · exact mixed
  refine limited.gains (endgame_gains t now homeless) (spares_slots ready.orderly ?_)
  cases chosen : t.endgameTarget now with
  | none => simp [peersOf]
  | some s =>
    have one := peersOf_card [s]
    rcases endgameTarget_cases chosen with ⟨lane,_,_,_,free,_⟩ | ⟨_,mixed,_⟩
    · have slot := (free only).2.2
      unfold holderSlots
      simp only [Option.toList_some,List.length_singleton] at one ⊢
      omega
    · rw [only] at mixed
      cases mixed
theorem tick_limited (ready : Ready t) (only : t.peerOnly = true) (limited : Limited t) (now : Nat) :
    Limited (t.tick now) := by
  rcases tick_cases ready (fun mixed => by rw [only] at mixed; cases mixed) now with
    ⟨_,_,same⟩ | ⟨_,_,same⟩ | ⟨mixed,_⟩ | ⟨mixed,_⟩
  · rw [same]
    exact limited.idle ((Gains.same rfl rfl rfl : Gains false [] t { t with floorReached := true }).idle (fail_gains _))
  · rw [same]
    exact endgame_limited ready only limited now
  all_goals rw [only] at mixed; cases mixed
theorem failed_limited (ready : Ready t) (only : t.peerOnly = true) (limited : Limited t) (now : Nat)
    (s : Source) : Limited (t.failed now s) := by
  unfold failed
  rw [if_neg (by simp [ready.running])]
  cases s with
  | origin =>
    rw [if_pos rfl,if_pos only]
    exact limited
  | peer p =>
    rw [if_neg (by simp)]
    cases t.lanes.get? (.peer p) with
    | none => exact limited
    | some lane =>
      dsimp only
      split_ifs
      · exact limited
      · have regiven := reassign_limited ready only limited now p
        rw [rebalanceOrigin_over]
        · exact regiven
        rcases reassign_course ready now p with acts | ⟨u,_,same⟩
        · exact .inr ((acts.ready (retire_ready ready p)).homeless
            (acts.peerOnly.trans ((retire_works t _).peerOnly.trans only)))
        · exact .inl (by rw [same]; rfl)
theorem progress_limited (ready : Ready t) (only : t.peerOnly = true) (limited : Limited t) (now : Nat)
    (s : Source) (received : Nat) : Limited (t.progress now s received) := by
  unfold progress
  split_ifs
  · exact tick_limited ready only limited now
  · exact limited
  · cases t.lanes.get? s with
    | none => exact limited
    | some lane =>
      dsimp only
      have moved :=
        limited.idle (Gains.modify t s (f := fun lane => lane.progressed now received) (fun _ => id) (fun _ => id))
      split_ifs with useless hopeless'
      · exact limited
      · unfold hopeless at hopeless'
        rw [if_pos only] at hopeless'
        cases hopeless'
      · exact moved

section
variable (sha256 : List UInt8 → Digest)

theorem badPiece_limited (ready : Ready t) (only : t.peerOnly = true) (limited : Limited t) (now : Nat)
    (s : Source) : Limited (t.badPiece now s) := by
  cases s with
  | origin => exact limited.idle (fail_gains t)
  | peer p =>
    have taken : Gains false [] t ((t.push (.ban p)).retire (.peer p)).1 :=
      (Gains.same rfl rfl rfl : Gains false [] t (t.push (.ban p))).idle (retire_gains _ _)
    exact assign_limited (retire_ready (push_ready ready _) p) (taken.mode.trans only) (limited.idle taken) now _
theorem accept_limited {c : Checked} (ready : Ready c.transfer) {source : Source}
    (early : c.transfer.peerOnly = true → now < c.transfer.floorAt ∧ InUse c.transfer source)
    (only : c.transfer.peerOnly = true) (limited : Limited c.transfer) (sent : Nat) (first : Option Nat) (bytes : Nat) :
    Limited (accept sha256 c now source sent first bytes) := by
  have quiet := measure_quiet (credited c source) now source sent first bytes
  have measured : Gains false [] _ _ := (credited_gains c source).idle (quiet.gains (congrArg Fixed.config quiet.fixed))
  have ready' : Ready ((credited c source).measure now source sent first bytes) :=
    Give.ready (.notes quiet) (credited_ready ready source)
  have early' : ((credited c source).measure now source sent first bytes).peerOnly = true →
      now < ((credited c source).measure now source sent first bytes).floorAt ∧
        InUse ((credited c source).measure now source sent first bytes) source := by
    intro _
    rw [quiet.works.floorAt,quiet.inUse]
    obtain ⟨_,_,frame⟩ := credited_frame c source
    rw [frame]
    exact early only
  have dropped : Ready (accepted c now source sent first bytes) ∧
      (accepted c now source sent first bytes).peerOnly = true ∧ Limited (accepted c now source sent first bytes) := by
    refine dropRedundant_induction ready' early' (P := fun u => Ready u ∧ u.peerOnly = true ∧ Limited u) ?_
      ⟨ready',measured.mode.trans only,limited.idle measured⟩
    rintro u p uready uearly differs ⟨_,uonly,ulimited⟩
    have pushed := push_ready uready (.cancel p)
    have gives := dropLane_gives uready differs uearly
    refine ⟨gives.ready (retire_ready pushed p),gives.works.peerOnly.trans ((retire_works _ _).peerOnly.trans uonly),?_⟩
    exact reassign_limited pushed uonly (ulimited.idle (Gains.same rfl rfl rfl)) now p
  obtain ⟨uready,uonly,ulimited⟩ := dropped
  have same : accept sha256 c now source sent first bytes =
      if (accepted c now source sent first bytes).verified.all id = true
      then (accepted c now source sent first bytes).finish sha256
      else ((accepted c now source sent first bytes).issue now source).refill now := rfl
  rw [same]
  generalize accepted c now source sent first bytes = u at uready uonly ulimited
  have issued : Gains false [] u _ := issue_gains u now source
  split_ifs
  · exact ulimited.idle (finish_gains sha256 u)
  · rw [refill,if_pos (issued.mode.trans uonly)]
    exact refillPeerOnly_limited ((issue_gives uready now source).ready uready) (ulimited.idle issued) now
theorem handle_limited (ready : Ready t) (only : t.peerOnly = true) (limited : Limited t)
    (later : e.starts = false) : Limited (handle sha256 t e) := by
  cases e with
  | start => cases later
  | startPeerOnly => cases later
  | tick now => exact tick_limited ready only limited now
  | failed now source => exact failed_limited ready only limited now source
  | progress now source received => exact progress_limited ready only limited now source received
  | delivered now source range bytes =>
    unfold handle
    by_cases floor : t.peerOnly = true ∧ t.floorAt ≤ now
    · unfold delivered
      dsimp only
      rw [if_pos floor]
      exact tick_limited ready only limited now
    have early : t.peerOnly = true → now < t.floorAt := fun only => not_le.mp (fun low => floor ⟨only,low⟩)
    rcases delivered_cases sha256 ready.running early source range bytes with
      ⟨same,_⟩ | ⟨lane,sent,found,flying,⟨_,same⟩ | ⟨_,_,same⟩ | ⟨_,_,same⟩⟩
    all_goals dsimp only; rw [same]
    · exact limited
    · exact failed_limited ready only limited now source
    all_goals
      have checked := response_ready sha256 ready found flying bytes
      have answered : Gains false [] t _ := (response_gains sha256 t source range bytes).1
    · exact badPiece_limited checked (answered.mode.trans only) (limited.idle answered) now source
    · exact accept_limited sha256 checked (response_used sha256 ready found flying bytes early)
        (answered.mode.trans only) (limited.idle answered) sent lane.firstByteAt (t.rangeLength range)
end

/-! ### The first start -/

theorem assignProbes_few (t : Transfer) (input : PlanInput) (estimates : List Estimate) : ∀ slots needed available,
    (t.assignProbes input estimates slots needed available).1.length ≤ slots := by
  induction estimates with
  | nil => intro slots needed available; exact Nat.zero_le _
  | cons estimate rest ih =>
    intro slots needed available
    unfold assignProbes
    cases needed with
    | nil => exact Nat.zero_le _
    | cons index later =>
      dsimp only
      split_ifs with full probe
      · exact Nat.zero_le _
      · have fewer := ih (slots - 1) later (available.erase estimate.source)
        simp only [List.length_cons]
        omega
      · exact ih slots (index :: later) available
theorem peersOf_few {sources picks : List Source} {limit : Nat} (few : sources.length ≤ limit)
    (within : ∀ p, .peer p ∈ picks → .peer p ∈ sources) : (peersOf picks).card ≤ limit :=
  le_trans (Finset.card_le_card (fun p member => mem_peersOf.mpr (within p (mem_peersOf.mp member))))
    (le_trans (peersOf_card sources) few)
theorem peersOf_append (first second : List Source) : peersOf (first ++ second) = peersOf first ∪ peersOf second := by
  ext p
  simp only [mem_peersOf,Finset.mem_union,List.mem_append]
theorem plan_few {input : PlanInput} (origin : ∀ e, input.origin = some e → e.source = .origin) {slots : Nat}
    (limit : max input.maxHolders 1 ≤ max slots 1) (none : slots = 0 → input.peers = []) :
    (peersOf ((plan input).assignments.map (·.source))).card ≤ slots := by
  by_cases full : slots = 0
  · refine @peersOf_few [] _ slots (Nat.zero_le _) (fun p member => ?_)
    obtain ⟨a,listed,own⟩ := List.mem_map.mp member
    rcases (plan_proper input).2 a listed with ⟨e,offered,_⟩ | ⟨e,found,same⟩
    · rw [none full] at offered
      cases offered
    · rw [own,origin e found] at same
      cases same
  · obtain ⟨sources,few,within⟩ := plan_holders input
    refine @peersOf_few sources _ slots (by omega) (fun p member => ?_)
    obtain ⟨a,listed,own⟩ := List.mem_map.mp member
    rcases within a listed with mine | ⟨e,found,same⟩
    · rwa [own] at mine
    · rw [own,origin e found] at same
      cases same
theorem picked_few (keyed : Keyed t) (now : Nat) (needed : List Nat) :
    (peersOf (t.picked now needed)).card ≤ t.holderLimit := by
  have origin : ∀ e, (t.lanes.get? .origin).map (·.estimate) = some e → e.source = .origin := by
    intro e is
    obtain ⟨lane,found,rfl⟩ := Option.map_eq_some_iff.mp is
    exact keyed _ _ found
  unfold picked
  by_cases concluded : needed = [] ∨ t.finished = true ∨
      (needed.length = 1 ∧ t.exclusiveOrigin = true ∧ t.originStarted = false)
  · rw [if_pos concluded]
    simp [peersOf]
  rw [if_neg concluded]
  unfold assignPlan
  dsimp only
  by_cases unprobed : t.probePeers = ∅
  · rw [if_pos unprobed]
    refine plan_few origin ?_ (fun full => ?_)
    · show max t.config.maxHolders 1 ≤ max (max t.config.maxHolders 1) 1
      exact le_max_left _ _
    · unfold holderLimit at full
      omega
  · rw [if_neg unprobed]
    generalize assigned : t.assignProbes _ _ _ _ _ = probed
    have few : probed.1.length ≤ t.holderLimit := by rw [← assigned]; exact assignProbes_few ..
    unfold planOf
    dsimp only
    rw [List.map_append,peersOf_append]
    have probes : (peersOf (probed.1.map (·.source))).card ≤ probed.1.length := by
      simpa using peersOf_card (probed.1.map (·.source))
    refine le_trans (Finset.card_union_le _ _) (le_trans (Nat.add_le_add probes
      (@plan_few _ origin (t.holderLimit - probed.1.length) le_rfl (fun full => if_pos full))) ?_)
    omega
theorem Unworked.limited (idle : Unworked t) : t.workers = ∅ ∧ Limited t ∧ Orderly t := by
  have none : ∀ s lane, t.lanes.get? s = some lane → lane.work = [] := by
    intro s lane found
    simp [Lane.work,(idle s lane found).1,(idle s lane found).2.1]
  have empty : t.workers = ∅ := by
    refine Finset.eq_empty_of_forall_notMem (fun p working => ?_)
    obtain ⟨lane,found,work⟩ := mem_workers.mp working
    exact work (none _ lane found)
  refine ⟨empty,by unfold Limited; rw [empty]; exact Nat.zero_le _,?_,fun s lane found _ => none s lane found,
    fun s lane found => (idle s lane found).2.2.2⟩
  intro s lane found r member
  rw [none s lane found] at member
  cases member
/-- No lane is open, as before the first start. -/
def Unopened (t : Transfer) : Prop := ∀ s, t.lanes.get? s = none
theorem Unopened.unworked (unopened : Unopened t) : Unworked t :=
  fun s lane found => by rw [unopened s] at found; cases found
theorem openSource_gains (now : Nat) (estimates : List Estimate) (t : Transfer) :
    Gains wide (if wide then estimates.map (·.source) else []) t (estimates.foldl (openSource now) t) := by
  refine Gains.folds (fun e listed u => ?_) t
  unfold openSource
  by_cases skips : u.peerOnly = true ∧ e.source.isPeer = false
  · rw [if_pos skips]
    exact (Gains.refl u).wider (by simp)
  · rw [if_neg skips]
    refine (openLane_gains u now e).wider (fun p member => ?_)
    cases wide with
    | false => exact member
    | true => exact List.mem_map.mpr ⟨e,listed,(List.mem_singleton.mp member).symm⟩
theorem opening_gains (t : Transfer) (now : Nat) (peers : List Estimate) (origin : Option Estimate)
    (first rate : Option ℚ)
    (probes : List Nat) : Gains wide (if wide then (peers ++ origin.toList).map (·.source) else []) t
      (t.opening now peers origin first rate probes) := by
  unfold opening
  dsimp only
  have opens : ∀ u : Transfer, u.config = t.config → u.peerOnly = t.peerOnly → u.lanes = t.lanes →
      Gains wide (if wide then (peers ++ origin.toList).map (·.source)
        else []) t ((peers ++ origin.toList).foldl (openSource now) u) :=
    fun u config mode lanes => (Gains.same config mode lanes).trans (openSource_gains now _ u)
  exact opens _ rfl rfl rfl
theorem opening_kept (keyed : Keyed t) (now : Nat) (peers : List Estimate) (origin : Option Estimate)
    (first rate : Option ℚ) (probes : List Nat) : Keyed (t.opening now peers origin first rate probes) ∧
      (t.opening now peers origin first rate probes).finished = t.finished := by
  unfold opening
  dsimp only
  refine List.foldlRecOn (motive := fun u : Transfer => Keyed u ∧
    u.finished = t.finished) _ _ ⟨keyed,rfl⟩ (fun u kept e _ => ?_)
  unfold openSource
  split_ifs
  · exact kept
  · exact ⟨openLane_keyed kept.1 now e,kept.2⟩
/-- A start of a mixed transfer puts few enough peers to work when none is at work, or
    when those it can pick are few. -/
theorem start_roomy (mixed : t.peerOnly = false) (keyed : Keyed t) (limited : Limited t) (now : Nat)
    (peers : List Estimate) (origin : Estimate) (first rate : Option ℚ) (probes : List Nat)
    (roomy : t.finished = true ∨ t.workers = ∅ ∨
      (t.usable ∪ peersOf ((peers ++ [origin]).map (·.source))).card ≤ t.holderLimit) :
    Holds t (t.startInner now peers (some origin) first rate probes) := by
  rw [startInner_opening,if_neg (by simp [mixed])]
  have opens : ∀ wide, Gains wide _ t (t.opening now peers (some origin) first rate probes) :=
    fun wide => opening_gains t now peers (some origin) first rate probes
  obtain ⟨filed,same⟩ := opening_kept keyed now peers (some origin) first rate probes
  have mode := (opens false).mode.trans mixed
  have gains : Gains false _ _ _ :=
    assign_gains mode now (List.range (t.opening now peers (some origin) first rate probes).verified.length)
  rcases roomy with rests | none | few
  · rw [picked_none (.inr (same.trans rests))] at gains
    exact limited.holds ((opens false).idle gains)
  · refine ⟨gains.config.trans (opens false).config,gains.mode.trans (opens false).mode,
      (limited.idle (opens false)).gains gains ?_⟩
    have idle : (t.opening now peers (some origin) first rate probes).workers = ∅ := by
      have within := (opens false).workers
      rw [none] at within
      exact Finset.subset_empty.mp within
    unfold Spares
    rw [idle,Finset.sdiff_empty,Finset.card_empty]
    exact picked_few filed now _
  · have draws :=
      assign_draws mode filed now (List.range (t.opening now peers (some origin) first rate probes).verified.length)
    refine .among ((opens true).trans draws.gains)
      ((workers_usable _).trans (draws.gains.usable.trans (fun p use => ?_))) few
    obtain ⟨lane,found,use⟩ := mem_peersWith.mp use
    rw [Finset.mem_union,mem_peersOf]
    exact ((opens true).only p lane found use).symm.imp mem_peersWith.mpr id

section
variable (sha256 : List UInt8 → Digest)

theorem Unopened.ticked (unopened : Unopened t) (now : Nat) : Unopened (t.tick now) ∧
    (t.peerOnly = true → t.tick now = t ∨ ((t.tick now).finished = true ∧ (t.tick now).ground = t.ground)) := by
  have noEntry : t.lanes.entries = [] := List.eq_nil_iff_forall_not_mem.mpr (fun entry member => by
    have found := OrderedMap.mem_entries.mp (show (entry.1,entry.2) ∈ t.lanes.entries from member)
    rw [unopened entry.1] at found
    cases found)
  have noTarget : t.endgame now = t := endgame_idle (by simp [endgameTarget,OrderedMap.values,noEntry])
  unfold tick
  split_ifs with concluded only floor floor
  · exact ⟨unopened,fun _ => .inl rfl⟩
  · refine ⟨fun s => ?_,fun _ => .inr ⟨rfl,rfl⟩⟩
    simp only [fail,push,closeOut,OrderedMap.get?_mapValues,unopened s,Option.map_none]
  · rw [noTarget]
    exact ⟨unopened,fun _ => .inl rfl⟩
  · refine ⟨?_,fun peersOnly => absurd peersOnly only⟩
    have none : ({ t with floorReached := true } : Transfer).lateLanes = [] := by simp [lateLanes,livePeers,noEntry]
    unfold reachFloor
    dsimp only
    rw [none]
    exact unopened
  · refine ⟨?_,fun peersOnly => absurd peersOnly only⟩
    have noKey : t.lanes.keys.filter (fun source => (t.watchAt source).isSome) = [] := by simp [OrderedMap.keys,noEntry]
    rw [noKey,judge,noTarget,rebalanceOrigin_over (.inr (unopened .origin))]
    exact unopened
theorem Unopened.waits {t : Transfer} (unopened : Unopened t) {e : Event} (later : e.starts = false) :
    Unopened (handle sha256 t e) ∧ (t.peerOnly = true → handle sha256 t e = t ∨
      ((handle sha256 t e).finished = true ∧ (handle sha256 t e).ground = t.ground)) := by
  cases e with
  | start => cases later
  | startPeerOnly => cases later
  | tick now => exact unopened.ticked now
  | delivered now source range bytes =>
    simp only [handle,delivered,unopened source]
    split_ifs
    · exact unopened.ticked now
    · exact ⟨unopened,fun _ => .inl rfl⟩
    · exact ⟨unopened,fun _ => .inl rfl⟩
  | progress now source received =>
    simp only [handle,progress,unopened source]
    split_ifs
    · exact unopened.ticked now
    · exact ⟨unopened,fun _ => .inl rfl⟩
    · exact ⟨unopened,fun _ => .inl rfl⟩
  | failed now source =>
    simp only [handle,failed,unopened source]
    split_ifs
    · exact ⟨unopened,fun _ => .inl rfl⟩
    · exact ⟨unopened,fun _ => .inl rfl⟩
    · refine ⟨fun s => ?_,fun _ => .inr ⟨rfl,rfl⟩⟩
      simp only [fail,push,closeOut,OrderedMap.get?_mapValues,unopened s,Option.map_none]
    · exact ⟨unopened,fun _ => .inl rfl⟩

/-! ### Runs -/

theorem Entered.started {t u : Transfer} (entered : Entered sha256 t e u) (orderly : Orderly t) :
    u.started = t.started := by
  cases entered with
  | tick | progress | late | unasked | short | unused => rfl
  | fails | wrong => exact congrArg Fixed.started (retire_works t _).fixed
  | spoiled found flying =>
    rw [(response_facts sha256 orderly found flying _).1]
  | @answered _ source _ _ range bytes found flying =>
    obtain ⟨_,_,frame⟩ := credited_frame (response sha256 t source range bytes) source
    rw [frame,(response_facts sha256 orderly found flying _).1]
theorem Ending.started (ending : Ending sha256 t t') : t'.started = t.started := by
  cases ending with
  | runs => rfl
  | fails => rfl
  | finishes =>
    unfold finish
    split_ifs <;> rfl
theorem handle_started (ready : Ready t) (busy : t.peerOnly = false → ∀ s, Busy t s)
    (later : e.starts = false) : (handle sha256 t e).started = t.started := by
  obtain ⟨w,same,_,ending⟩ := handle_induction sha256 ready busy later (P := fun u => u.started = t.started)
    (fun u entered => entered.started sha256 ready.orderly)
    (fun u v _ same act => (congrArg Fixed.started act.works.fixed).trans same)
    (fun now _ _ ready same => (congrArg Fixed.started (endgame_ready ready now).2.fixed).trans same)
  exact (ending.started sha256).trans same
/-- Where a peer-only transfer stands: before its start, over, or running since. -/
def Stands (n : Nat) (t : Transfer) : Prop := Newborn n t ∨ t.finished = true ∨ (Rested n t ∧ t.started = true)
theorem start_again (only : t.peerOnly = true) (concluded : t.started = true ∨ t.finished = true)
    (starts : e.starts = true) : handle sha256 t e = t := by
  cases e with
  | start => simp only [handle,startWithProbePeers,startInner,only,concluded,and_self,if_true]
  | startPeerOnly => simp only [handle,startPeerOnlyWithProbePeers,startInner,only,concluded,and_self,if_true]
  | delivered | failed | progress | tick => cases starts
theorem drained_limited (limited : Limited t) : Limited t.drainCommands.2 :=
  limited.idle (Gains.same rfl rfl rfl)
theorem stands_limited {n : Nat} (stands : Stands n t) (only : t.peerOnly = true) (limited : Limited t)
    (e : Event) : Stands n (handle sha256 t e).drainCommands.2 ∧ Limited (handle sha256 t e) ∧
      (handle sha256 t e).ground = t.ground := by
  cases starts : e.starts with
  | false =>
    rcases stands with newborn | concluded | ⟨rested,begun⟩
    · have unopened : Unopened t := fun s => by rw [newborn.lanes]; rfl
      obtain ⟨still,waits⟩ := unopened.waits sha256 starts
      rcases waits only with same | ⟨concluded,ground⟩
      · rw [same]
        exact ⟨.inl ⟨newborn.length,newborn.pieces,newborn.running,newborn.started,newborn.lanes,newborn.pending,rfl,
          newborn.fresh,newborn.mixed,newborn.floor,newborn.unstarted,newborn.pieceSize⟩,limited,rfl⟩
      · exact ⟨.inr (.inl concluded),still.unworked.limited.2.1,ground⟩
    · rw [handle_finished sha256 concluded starts]
      exact ⟨.inr (.inl concluded),limited,rfl⟩
    · have kept := handle_limited sha256 rested.ready only limited starts
      refine ⟨?_,kept,handle_ground sha256 rested.ready rested.busy starts⟩
      rcases drained_between (handle_between sha256 rested starts) with concluded | rested'
      · exact .inr (.inl concluded)
      · exact .inr (.inr ⟨rested',(handle_started sha256 rested.ready rested.busy starts).trans begun⟩)
  | true =>
    rcases stands with newborn | concluded | ⟨rested,begun⟩
    · have begins : Begins t e := by
        cases e with
        | start => exact .start (fun mixed => by rw [only] at mixed; cases mixed)
        | startPeerOnly => exact .peerOnly only
        | delivered | failed | progress | tick => cases starts
      obtain ⟨u,opened,same⟩ := begins_opened sha256 newborn begins
      have kept : Limited (handle sha256 t e) := by
        rw [same]
        exact assign_limited opened.ready (opened.peerOnly.trans only) opened.idle.limited.2.1 _ _
      obtain ⟨w,acts,ending⟩ := (opened.course e.roster.1).ending sha256
      rw [← same] at ending
      refine ⟨?_,kept,(ending.ground sha256).trans (acts.works.ground.trans opened.ground)⟩
      rcases drained_between (begins_between sha256 newborn begins) with concluded | rested
      · exact .inr (.inl concluded)
      · exact .inr (.inr ⟨rested,(ending.started sha256).trans
          ((congrArg Fixed.started acts.works.fixed).trans opened.started)⟩)
    · rw [start_again sha256 only (.inr concluded) starts]
      exact ⟨.inr (.inl concluded),limited,rfl⟩
    · rw [start_again sha256 only (.inl begun) starts]
      exact ⟨.inr (.inr ⟨⟨drained_ready rested.ready,rested.count,fun mixed => by
        have mixed' : t.peerOnly = false := mixed
        rw [only] at mixed'
        cases mixed'⟩,begun⟩),limited,rfl⟩
theorem mixed_limited (mixed : t.peerOnly = false) (keyed : Keyed t) (limited : Limited t)
    (fair : t.finished = true ∨ Roomy sha256 t e) : Holds t (handle sha256 t e) := by
  have later : ∀ {e}, e.starts = false → t.finished = true → Holds t (handle sha256 t e) := by
    intro e later rests
    rw [handle_finished sha256 rests later]
    exact .refl limited
  cases e with
  | start now peers origin first rate probes =>
    simp only [handle,startWithProbePeers,mixed]
    exact start_roomy mixed keyed limited now peers origin first rate probes fair
  | startPeerOnly =>
    simp only [handle,startPeerOnlyWithProbePeers,mixed,Bool.false_eq_true,if_false]
    exact .refl limited
  | delivered now source range bytes =>
    exact fair.elim (later rfl) (delivered_roomy sha256 mixed keyed limited now source range bytes)
  | failed now source => exact fair.elim (later rfl) (failed_roomy mixed keyed limited now source)
  | progress now source received => exact fair.elim (later rfl) (progress_roomy mixed keyed limited now source received)
  | tick now => exact fair.elim (later rfl) (tick_roomy mixed keyed limited now)
theorem peerOnly_limited {config : TransferConfig} {size : Nat} {digest : String} {pieces : List String}
    {deadline : Nat} (made : newPeerOnly config size digest pieces deadline = some t) (events : List Event) :
    (after sha256 t events).workers.card ≤ max config.maxHolders 1 := by
  obtain ⟨newborn,settings⟩ := made_newborn (.inr (.inr made))
  have unopened : Unopened t := fun s => by rw [newborn.lanes]; rfl
  have mode : t.peerOnly = true := (peerOnly_newborn made).2.1
  have held : Stands pieces.length (after sha256 t events) ∧ Limited (after sha256 t events) ∧
      (after sha256 t events).ground = t.ground := by
    induction events using List.reverseRecOn with
    | nil => exact ⟨.inl newborn,unopened.unworked.limited.2.1,rfl⟩
    | append_singleton events e ih =>
      obtain ⟨stands,limited,ground⟩ := ih
      rw [after_concat]
      obtain ⟨later,kept,same⟩ := stands_limited sha256 stands ((Ground.mode ground).trans mode) limited e
      exact ⟨later,drained_limited kept,same.trans ground⟩
  obtain ⟨_,limited,ground⟩ := held
  unfold Limited holderLimit at limited
  rwa [show (after sha256 t events).config = t.config from congrArg Ground.config ground,settings] at limited
/-- No more peers work at once than may, in every run of a peer-only transfer, and in
    every run of a mixed one whose calls, until it is over, are roomy. -/
theorem holders_limited {config : TransferConfig} {size : Nat} {digest : String} {pieces : List String}
    {deadline : Nat} {t : Transfer} (made : new config size digest pieces deadline = some t ∨
      (new config size digest pieces deadline).bind withExclusiveOrigin = some t ∨
      newPeerOnly config size digest pieces deadline = some t) (events : List Event)
    (fair : ∀ pre e post, events = pre ++ e :: post → t.peerOnly = true ∨ (after sha256 t pre).finished = true ∨
      Roomy sha256 (after sha256 t pre) e) :
    (after sha256 t events).workers.card ≤ max config.maxHolders 1 := by
  obtain ⟨newborn,settings⟩ := made_newborn made
  cases only : t.peerOnly with
  | true =>
    rcases made with made | made | made
    · rw [(new_newborn made).2.1] at only
      cases only
    · rw [(exclusive_newborn made).2.1] at only
      cases only
    · exact peerOnly_limited sha256 made events
  | false =>
    have unopened : Unopened t := fun s => by rw [newborn.lanes]; rfl
    have held : Limited (after sha256 t events) ∧ Keyed (after sha256 t events) ∧
        (after sha256 t events).config = t.config ∧
        (after sha256 t events).peerOnly = false := by
      induction events using List.reverseRecOn with
      | nil =>
        refine ⟨unopened.unworked.limited.2.1,fun s lane found => ?_,rfl,only⟩
        rw [show (after sha256 t []).lanes = t.lanes from rfl,unopened s] at found
        cases found
      | append_singleton events e ih =>
        obtain ⟨limited,keyed,config,mode⟩ := ih (fun pre e' post split => fair pre e' (post ++ [e]) (by simp [split]))
        rw [after_concat]
        have holds := mixed_limited sha256 mode keyed limited ((fair events e [] rfl).resolve_left (by simp [only]))
        exact ⟨drained_limited holds.limited,handle_keyed sha256 keyed e,holds.config.trans config,
          holds.mode.trans mode⟩
    obtain ⟨limited,_,same,_⟩ := held
    unfold Limited holderLimit at limited
    rwa [same,settings] at limited

private def fourPieces : Option Transfer := new ⟨1,0⟩ 262144 zeroDigest (List.replicate 4 zeroDigest) 200
private def twoHolders : Event := .start 0 [⟨.peer 1,some 10,some 800⟩,⟨.peer 2,some 10,some 700⟩]
  ⟨.origin,some 1,some 6⟩ none none []
/-- One holder fails and the other takes its pieces, and a tick then finds no third: one
    of them works at a time. -/
theorem holders_limited_after_failure : ∃ t,
    new ⟨1,0⟩ 262144 zeroDigest (List.replicate 4 zeroDigest) 200 = some t ∧
    (after (fun _ => []) t [twoHolders,.failed 1 (.peer 1),.tick 2]).workers.card ≤ max 1 1 := by
  obtain ⟨t,made⟩ := Option.isSome_iff_exists.mp (by decide +kernel : fourPieces.isSome = true)
  have roomy : fourPieces.map (fun t => (List.range 3).all (fun n => decide (Roomy (fun _ => []) (after (fun _ => []) t
      ([twoHolders,.failed 1 (.peer 1),.tick 2].take n)) ([twoHolders,.failed 1 (.peer 1),.tick 2].getD n
        twoHolders)))) = some true := by
    decide +kernel
  rw [made] at roomy
  have each := List.all_eq_true.mp (Option.some.inj roomy)
  refine ⟨t,made,holders_limited (fun _ => []) (.inl made) [twoHolders,.failed 1 (.peer 1),.tick 2] ?_⟩
  intro pre e post split
  have short : pre.length < 3 := by
    have length := congrArg List.length split
    simp at length
    omega
  have room := of_decide_eq_true (each pre.length (List.mem_range.mpr short))
  rw [split,List.take_left,show (pre ++ e :: post).getD pre.length twoHolders = e by simp] at room
  exact .inr (.inr room)
/-- One holder may work at a time. The first is at work when a tick finds origin slow, and
    the second is given a piece of origin. -/
theorem holders_exceeded : ∃ t, new ⟨1,0⟩ 262144 zeroDigest (List.replicate 4 zeroDigest) 200 = some t ∧
    (after (fun _ => []) t [twoHolders,.tick 1]).workers.card = 2 := by
  obtain ⟨t,made⟩ := Option.isSome_iff_exists.mp (by decide +kernel : fourPieces.isSome = true)
  have evaluated : fourPieces.map (fun t => (after (fun _ => []) t [twoHolders,.tick 1]).workers.card) = some 2 := by
    decide +kernel
  rw [made] at evaluated
  exact ⟨t,made,Option.some.inj evaluated⟩
end
end Transfer
end RelaySwarm.Transfers
