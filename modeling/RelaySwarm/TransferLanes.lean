import RelaySwarm.TransferSteps

/-!
The lanes of a transfer, step by step. A lane given ranges gains their pieces and
has a request in flight (`Grows`); a step of work keeps the lanes orderly and
every piece covered but those it takes out itself (`Loses`), and assigning in a
mixed transfer covers the pieces it was asked to (`assign_keeps`).
-/
namespace RelaySwarm.Transfers
open Pieces Planning

variable {ranges : List PieceRange} {i : Nat} {lane : Lane} {t t' : Transfer} {s : Source} {extra : List Nat}
/-- No range is empty or ends past the last piece. -/
def Within (count : Nat) (ranges : List PieceRange) : Prop := ∀ r ∈ ranges, r.start < r.stop ∧ r.stop ≤ count
theorem within_append {count : Nat} {a b : List PieceRange} :
    Within count (a ++ b) ↔ Within count a ∧ Within count b := by
  simp [Within,or_imp,forall_and,and_and_and_comm]
theorem within_runs {count : Nat} {pieces : List Nat} (inside : ∀ i ∈ pieces, i < count) :
    Within count (runs pieces) := by
  intro r member
  have proper := runs_proper member
  have last : r.stop - 1 ∈ indices (runs pieces) := mem_indices.mpr ⟨r,member,by omega,by omega⟩
  rw [indices_runs] at last
  have := inside _ last
  exact ⟨proper,by omega⟩
theorem within_nil_of_indices {count : Nat} (within : Within count ranges)
    (none : indices ranges = []) : ranges = [] := by
  cases ranges with
  | nil => rfl
  | cons r rest =>
    have proper := (within r (by simp)).1
    have first : r.start ∈ indices (r :: rest) := mem_indices.mpr ⟨r,by simp,by omega,by omega⟩
    rw [none] at first
    cases first
theorem within_lt {count : Nat} (within : Within count ranges)
    (member : i ∈ indices ranges) : i < count := by
  obtain ⟨r,listed,_,high⟩ := mem_indices.mp member
  have := (within r listed).2
  omega
theorem within_of_dealt (count : Nat) {assignments : List Assignment} (proper : Proper assignments)
    (inside : ∀ i ∈ dealt assignments, i < count) : ∀ a ∈ assignments, Within count a.ranges := by
  intro a member r listed
  have ordered := (proper a member).2 r listed
  have last : r.stop - 1 ∈ dealt assignments :=
    List.mem_flatMap.mpr ⟨a,member,mem_indices.mpr ⟨r,listed,by omega,by omega⟩⟩
  have := inside _ last
  exact ⟨ordered,by omega⟩

theorem Lane.holds_iff : lane.holds i ↔ lane.retired = false ∧ i ∈ indices lane.work := by
  rw [Lane.holds,mem_indices]

namespace Transfer

/-! ### The loop of an issue -/

private theorem clip_indices {range : PieceRange} {stop : Nat} (low : range.start ≤ stop) (high : stop ≤ range.stop) :
    (⟨range.start,stop⟩ : PieceRange).indices ++ (⟨stop,range.stop⟩ : PieceRange).indices = range.indices := by
  simp only [PieceRange.indices]
  have join := @List.range'_append range.start (stop - range.start) (range.stop - stop) 1
  rw [show range.start + 1 * (stop - range.start) = stop by omega,
    show stop - range.start + (range.stop - stop) = range.stop - range.start by omega] at join
  exact join
theorem sendQueue_indices (exclusive : Bool) (source : Source) (cap count : Nat) (queue : List PieceRange) :
    ∀ (idle : Bool) (ahead : Nat), Within count queue → 0 < cap →
      indices (sendQueue exclusive source cap idle ahead queue).1 ++
        indices (sendQueue exclusive source cap idle ahead queue).2 = indices queue ∧
      Within count ((sendQueue exclusive source cap idle ahead queue).1 ++
        (sendQueue exclusive source cap idle ahead queue).2) := by
  induction queue with
  | nil => intro idle ahead within _; exact ⟨by simp [sendQueue],by simpa [sendQueue] using within⟩
  | cons range rest ih =>
    intro idle ahead within positive
    obtain ⟨ordered,bound⟩ := within range (by simp)
    have later : Within count rest := fun r member => within r (by simp [member])
    unfold sendQueue
    split_ifs with busy spent
    · exact ⟨by simp,by simpa using within⟩
    · exact ⟨by simp,by simpa using within⟩
    dsimp only
    by_cases clip : (source.isPeer = true ∨ exclusive = true) ∧
        min (range.start + issueCap source cap ahead) range.stop < range.stop
    · rw [if_pos clip]
      have room : 0 < issueCap source cap ahead := by
        unfold issueCap
        split_ifs with own
        · subst own
          simp only [Source.isPeer,Bool.false_eq_true,false_or] at clip
          exact Nat.pos_of_ne_zero (fun zero => spent ⟨clip.1,rfl,zero⟩)
        · exact positive
      have low : range.start < min (range.start + issueCap source cap ahead) range.stop := by omega
      refine ⟨?_,?_⟩
      · rw [indices_cons,indices_cons,indices_nil,List.append_nil,← List.append_assoc,
          clip_indices (by omega) (by omega),indices_cons]
      · intro r member
        simp only [List.cons_append,List.nil_append,List.mem_cons] at member
        rcases member with rfl | rfl | tail
        · exact ⟨low,by simp only; omega⟩
        · exact ⟨clip.2,bound⟩
        · exact later r tail
    · rw [if_neg clip]
      obtain ⟨same,inside⟩ := ih false (ahead - (range.stop - range.start)) later positive
      refine ⟨by rw [indices_cons,List.append_assoc,same,indices_cons],?_⟩
      intro r member
      rcases List.mem_cons.mp (by simpa using member : r ∈ range :: (_ ++ _)) with rfl | tail
      · exact ⟨ordered,bound⟩
      · exact inside r tail
theorem sendQueue_busy (exclusive : Bool) (p cap ahead : Nat) (queue : List PieceRange) :
    (sendQueue exclusive (.peer p) cap false ahead queue).1 = [] := by
  cases queue with
  | nil => rfl
  | cons range rest => simp [sendQueue,Source.isPeer]
theorem sendQueue_sends {exclusive : Bool} {source : Source} {cap ahead : Nat} {queue : List PieceRange}
    (some : queue ≠ []) (left : 0 < ahead) : (sendQueue exclusive source cap true ahead queue).1 ≠ [] := by
  cases queue with
  | nil => exact absurd rfl some
  | cons range rest =>
    unfold sendQueue
    rw [if_neg (by simp),if_neg (by omega)]
    dsimp only
    split_ifs <;> simp

/-- The source's lane, when it has one, is in use. -/
def Live (t : Transfer) (s : Source) : Prop := ∀ lane, t.lanes.get? s = some lane → lane.retired = false
/-- A lane with queued work has a request in flight. -/
def Busy (t : Transfer) (s : Source) : Prop :=
  ∀ lane, t.lanes.get? s = some lane → lane.queue ≠ [] → lane.inFlight ≠ []
/-- Lanes hold proper ranges of the object, retired lanes hold none, and a lane is
    filed under the source of its estimate. -/
structure Orderly (t : Transfer) : Prop where
  within : ∀ s lane, t.lanes.get? s = some lane → Within t.verified.length lane.work
  gone : ∀ s lane, t.lanes.get? s = some lane → lane.retired = true → lane.work = []
  keyed : ∀ s lane, t.lanes.get? s = some lane → lane.estimate.source = s

theorem covered_iff : t.covered i ↔
    t.isVerified i = true ∨ ∃ s lane, t.lanes.get? s = some lane ∧ lane.holds i := by
  unfold covered
  refine or_congr Iff.rfl ⟨?_,?_⟩
  · rintro ⟨lane,member,holds⟩
    obtain ⟨s,found⟩ := OrderedMap.mem_values.mp member
    exact ⟨s,lane,found,holds⟩
  · rintro ⟨s,lane,found,holds⟩
    exact ⟨lane,OrderedMap.mem_values.mpr ⟨s,found⟩,holds⟩

/-- One lane is given more pieces and has a request in flight if it has work;
    every other lane is as before. -/
structure Grows (t t' : Transfer) (s : Source) (extra : List Nat) : Prop where
  others : ∀ s', s' ≠ s → t'.lanes.get? s' = t.lanes.get? s'
  here : ∃ lane lane', t.lanes.get? s = some lane ∧ t'.lanes.get? s = some lane' ∧ lane'.retired = lane.retired ∧
    lane'.estimate = lane.estimate ∧ indices lane'.work = indices lane.work ++ extra ∧
    Within t'.verified.length lane'.work ∧ (lane'.queue ≠ [] → lane'.inFlight ≠ [])
  verified : t'.verified = t.verified

theorem Grows.orderly (grows : Grows t t' s extra)
    (orderly : Orderly t) (live : Live t s) : Orderly t' := by
  obtain ⟨lane,lane',found,found',retired,estimate,_,within,_⟩ := grows.here
  refine ⟨?_,?_,?_⟩
  · intro s' other lies
    by_cases same : s' = s
    · subst same
      rw [found'] at lies
      cases lies
      exact within
    · rw [grows.others s' same] at lies
      rw [grows.verified]
      exact orderly.within s' other lies
  · intro s' other lies gone
    by_cases same : s' = s
    · subst same
      rw [found'] at lies
      cases lies
      rw [retired,live lane found] at gone
      cases gone
    · rw [grows.others s' same] at lies
      exact orderly.gone s' other lies gone
  · intro s' other lies
    by_cases same : s' = s
    · subst same
      rw [found'] at lies
      cases lies
      rw [estimate]
      exact orderly.keyed s' lane found
    · rw [grows.others s' same] at lies
      exact orderly.keyed s' other lies
theorem Grows.busy (grows : Grows t t' s extra) (s' : Source)
    (busy : s' = s ∨ Busy t s') : Busy t' s' := by
  obtain ⟨lane,lane',found,found',_,_,_,_,sends⟩ := grows.here
  intro other lies some
  by_cases same : s' = s
  · subst same
    rw [found'] at lies
    cases lies
    exact sends some
  · rw [grows.others s' same] at lies
    exact busy.resolve_left same other lies some
theorem Grows.live (grows : Grows t t' s extra) {s' : Source}
    (live : Live t s') : Live t' s' := by
  obtain ⟨lane,lane',found,found',retired,_⟩ := grows.here
  intro other lies
  by_cases same : s' = s
  · subst same
    rw [found'] at lies
    cases lies
    rw [retired]
    exact live lane found
  · rw [grows.others s' same] at lies
    exact live other lies
theorem Grows.covers (grows : Grows t t' s extra)
    (live : Live t s) (covered : t.covered i ∨ i ∈ extra) : t'.covered i := by
  obtain ⟨lane,lane',found,found',retired,_,pieces,_,_⟩ := grows.here
  have own : i ∈ indices lane'.work → t'.covered i := fun member =>
    covered_iff.mpr (.inr ⟨s,lane',found',Lane.holds_iff.mpr ⟨retired.trans (live lane found),member⟩⟩)
  rcases covered with covered | member
  · rcases covered_iff.mp covered with done | ⟨s',other,lies,holds⟩
    · exact covered_iff.mpr (.inl (by simpa [isVerified,grows.verified] using done))
    · by_cases same : s' = s
      · subst same
        rw [found] at lies
        cases lies
        exact own (by rw [pieces]; exact List.mem_append_left _ (Lane.holds_iff.mp holds).2)
      · exact covered_iff.mpr (.inr ⟨s',other,by rw [grows.others s' same]; exact lies,holds⟩)
  · exact own (by rw [pieces]; exact List.mem_append_right _ member)

theorem Within.queued_pos {count : Nat} {queue : List PieceRange} (within : Within count queue) (some : queue ≠ []) :
    0 < (queue.map (fun range => range.stop - range.start)).sum := by
  cases queue with
  | nil => exact absurd rfl some
  | cons r rest =>
    have := (within r (by simp)).1
    simp only [List.map_cons,List.sum_cons]
    omega
theorem sending_work (lane : Lane) (now : Nat) (sent left : List PieceRange) :
    (lane.sending now sent left).work = lane.inFlight.map (·.1) ++ sent ++ left ∧
      (lane.sending now sent left).queue = left ∧
      (lane.sending now sent left).inFlight = lane.inFlight ++ sent.map (fun range => (range,now)) ∧
      (lane.sending now sent left).retired = lane.retired ∧ (lane.sending now sent left).estimate = lane.estimate := by
  unfold Lane.sending
  dsimp only
  split_ifs with none
  · subst none; simp [Lane.work]
  · simp [Lane.work,Function.comp_def]
theorem issue_others (t : Transfer) (now : Nat) {s s' : Source} (differs : s' ≠ s) :
    (t.issue now s).lanes.get? s' = t.lanes.get? s' := by
  unfold issue
  cases found : t.lanes.get? s with
  | none => rfl
  | some lane =>
    dsimp only
    split_ifs
    · rfl
    all_goals exact OrderedMap.get?_modify_of_ne _ _ differs
theorem issue_grows (found : t.lanes.get? s = some lane) (now : Nat)
    (within : Within t.verified.length lane.work) : Grows t (t.issue now s) s [] := by
  obtain ⟨inFlight,queued⟩ := within_append.mp within
  have works := (issue_works t now s).verified
  unfold issue at works ⊢
  simp only [found] at works ⊢
  split_ifs at works ⊢ with held
  · exact ⟨fun _ _ => rfl,⟨lane,lane,found,found,rfl,rfl,by simp,within,fun _ => held.2.2⟩,rfl⟩
  all_goals
    refine ⟨fun s' other => OrderedMap.get?_modify_of_ne _ _ other,?_,rfl⟩
    simp only [OrderedMap.get?_modify_self,found,Option.map_some]
    set send := sendQueue t.exclusiveOrigin s
      (min (max (maxPeerRequestBytes / t.pieceSize) 1) maxPeerRequestPieces) lane.inFlight.isEmpty _ lane.queue
        with sends
    obtain ⟨same,inside⟩ := sendQueue_indices t.exclusiveOrigin s
      (min (max (maxPeerRequestBytes / t.pieceSize) 1) maxPeerRequestPieces) t.verified.length lane.queue
      lane.inFlight.isEmpty _ queued (by simp [maxPeerRequestPieces])
    rw [← sends] at same inside
    obtain ⟨work,queue,flight,retired,estimate⟩ := sending_work lane now send.1 send.2
    refine ⟨lane,_,rfl,rfl,retired,estimate,?_,?_,?_⟩
    · rw [work,List.append_assoc,indices_append,indices_append,same,Lane.work,indices_append,List.append_nil]
    · rw [work,List.append_assoc]
      exact within_append.mpr ⟨inFlight,inside⟩
    · rw [queue,flight]
      intro left none
      have empty : lane.inFlight = [] := (List.append_eq_nil_iff.mp none).1
      have unsent : send.1 = [] := by simpa using (List.append_eq_nil_iff.mp none).2
      have some : lane.queue ≠ [] := by
        rintro noQueue
        rw [sends,noQueue] at left
        exact left (by simp [sendQueue])
      have positive := Within.queued_pos queued some
      refine @sendQueue_sends t.exclusiveOrigin s
        (min (max (maxPeerRequestBytes / t.pieceSize) 1) maxPeerRequestPieces) _ _ some ?_
        (by rw [← unsent,sends,empty]; rfl)
      omega

theorem extend_grows (found : t.lanes.get? s = some lane) (now : Nat)
    (finishAt : ℚ → ℚ) (within : Within t.verified.length lane.work)
    (extra : Within t.verified.length ranges) :
    Grows t ((t.extendQueue s ranges finishAt).issue now s) s (indices ranges) := by
  have queued : (t.extendQueue s ranges finishAt).lanes.get? s =
      some { lane with queue := lane.queue ++ ranges, finishAt := finishAt lane.finishAt } := by
    simp [extendQueue,found]
  have inside : Within t.verified.length (lane.work ++ ranges) := within_append.mpr ⟨within,extra⟩
  have issued := issue_grows (t := t.extendQueue s ranges finishAt) queued now (by
    simpa [Lane.work,extendQueue] using inside)
  obtain ⟨other,lane',found',after,retired,estimate,pieces,within',sends⟩ := issued.here
  rw [queued] at found'
  cases found'
  refine ⟨?_,⟨lane,lane',found,after,retired,estimate,?_,within',sends⟩,issued.verified⟩
  · intro s' different
    rw [issued.others s' different]
    exact OrderedMap.get?_modify_of_ne _ _ different
  · simpa [Lane.work] using pieces
theorem openLane_get (t : Transfer) (now : Nat) (estimate : Estimate) (s : Source) :
    (t.openLane now estimate).lanes.get? s = if s = estimate.source then
      some ((t.lanes.get? s).getD (Lane.new estimate now)) else t.lanes.get? s := by
  rw [openLane,OrderedMap.get?_orInsert]
  split_ifs with same
  · rw [same]
  · rfl

/-- Origin has a lane in use. -/
def Homed (t : Transfer) : Prop := ∃ lane, t.lanes.get? .origin = some lane ∧ lane.retired = false
theorem Homed.live (homed : Homed t) : Live t .origin := by
  obtain ⟨lane,found,use⟩ := homed
  intro other here
  rw [found] at here
  cases here
  exact use

/-- A step that leaves every lane orderly and loses no piece but the listed ones. -/
structure Loses (t t' : Transfer) (lost : List Nat) : Prop where
  orderly : Orderly t'
  busy : ∀ s, Busy t s → Busy t' s
  covers : ∀ i, t.covered i → t'.covered i ∨ i ∈ lost
  homed : Homed t → Homed t'
/-- A step that loses no piece. -/
abbrev Keeps (t t' : Transfer) : Prop := Loses t t' []

theorem Loses.trans {a b c : Transfer} {lost more : List Nat} (first : Loses a b lost) (second : Loses b c more) :
    Loses a c (lost ++ more) := by
  refine ⟨second.orderly,fun s h => second.busy s (first.busy s h),?_,fun h => second.homed (first.homed h)⟩
  intro i covered
  rcases first.covers i covered with still | gone
  · rcases second.covers i still with kept | late
    · exact .inl kept
    · exact .inr (List.mem_append_right _ late)
  · exact .inr (List.mem_append_left _ gone)
theorem Loses.restored {lost : List Nat} (loses : Loses t t' lost)
    (back : ∀ i ∈ lost, t'.covered i) : Keeps t t' :=
  ⟨loses.orderly,loses.busy,fun i covered => .inl ((loses.covers i covered).elim id (back i)),loses.homed⟩
theorem Loses.kept (keeps : Keeps t t') (covered : t.covered i) : t'.covered i :=
  (keeps.covers i covered).resolve_right List.not_mem_nil
theorem Loses.refl (orderly : Orderly t) : Keeps t t :=
  ⟨orderly,fun _ h => h,fun _ h => .inl h,fun h => h⟩
theorem Loses.then {a b c : Transfer} (first : Keeps a b) (second : Keeps b c) : Keeps a c := first.trans second
theorem Loses.same (lanes : t'.lanes = t.lanes) (verified : t'.verified = t.verified)
    (orderly : Orderly t) : Keeps t t' := by
  refine ⟨⟨?_,?_,?_⟩,?_,?_,?_⟩
  · rw [lanes,verified]; exact orderly.within
  · rw [lanes]; exact orderly.gone
  · rw [lanes]; exact orderly.keyed
  · intro s; unfold Busy; rw [lanes]; exact fun h => h
  · intro i covered
    rw [covered_iff] at covered ⊢
    exact .inl (by simpa [isVerified,lanes,verified] using covered)
  · unfold Homed; rw [lanes]; exact fun h => h
theorem modify_keeps (orderly : Orderly t) (s : Source) {f : Lane → Lane}
    (work : ∀ lane, (f lane).queue = lane.queue ∧ (f lane).inFlight = lane.inFlight ∧
      (f lane).retired = lane.retired ∧ (f lane).estimate.source = lane.estimate.source) :
    Keeps t { t with lanes := t.lanes.modify s f } := by
  have kept : ∀ s' lane', (t.lanes.modify s f).get? s' = some lane' → ∃ lane, t.lanes.get? s' = some lane ∧
      lane'.queue = lane.queue ∧ lane'.inFlight = lane.inFlight ∧ lane'.retired = lane.retired ∧
      lane'.estimate.source = lane.estimate.source := by
    intro s' lane' found
    rw [OrderedMap.get?_modify] at found
    split_ifs at found
    · obtain ⟨lane,old,rfl⟩ := Option.map_eq_some_iff.mp found
      exact ⟨lane,old,work lane⟩
    · exact ⟨lane',found,rfl,rfl,rfl,rfl⟩
  have back : ∀ s' lane, t.lanes.get? s' = some lane → ∃ lane', (t.lanes.modify s f).get? s' = some lane' ∧
      lane'.work = lane.work ∧ lane'.retired = lane.retired := by
    intro s' lane found
    rw [OrderedMap.get?_modify,found]
    obtain ⟨queue,flight,retired,_⟩ := work lane
    split_ifs
    · exact ⟨_,rfl,by simp [Lane.work,queue,flight],retired⟩
    · exact ⟨_,rfl,rfl,rfl⟩
  refine ⟨⟨?_,?_,?_⟩,?_,?_,?_⟩
  · intro s' lane' found
    obtain ⟨lane,old,queue,flight,_,_⟩ := kept s' lane' found
    simpa [Lane.work,queue,flight] using orderly.within s' lane old
  · intro s' lane' found gone
    obtain ⟨lane,old,queue,flight,retired,_⟩ := kept s' lane' found
    simpa [Lane.work,queue,flight] using orderly.gone s' lane old (retired ▸ gone)
  · intro s' lane' found
    obtain ⟨lane,old,_,_,_,source⟩ := kept s' lane' found
    rw [source]
    exact orderly.keyed s' lane old
  · intro s' busy lane' found some
    obtain ⟨lane,old,queue,flight,_,_⟩ := kept s' lane' found
    rw [flight]
    exact busy lane old (queue ▸ some)
  · intro i covered
    rcases covered_iff.mp covered with done | ⟨s',lane,found,holds⟩
    · exact .inl (covered_iff.mpr (.inl done))
    · obtain ⟨lane',found',work',retired⟩ := back s' lane found
      refine .inl (covered_iff.mpr (.inr ⟨s',lane',found',?_⟩))
      rw [Lane.holds_iff] at holds ⊢
      rwa [work',retired]
  · rintro ⟨lane,found,use⟩
    obtain ⟨lane',found',_,retired⟩ := back _ lane found
    exact ⟨lane',found',retired.trans use⟩
theorem Grows.keeps (grows : Grows t t' s extra)
    (orderly : Orderly t) (live : Live t s) : Keeps t t' := by
  refine ⟨grows.orderly orderly live,fun s' busy => grows.busy s' (.inr busy),
    fun _ covered => .inl (grows.covers live (.inl covered)),?_⟩
  rintro ⟨lane,found,use⟩
  by_cases own : Source.origin = s
  · subst own
    obtain ⟨old,new,before,after,retired,_⟩ := grows.here
    exact ⟨new,after,retired.trans (live old before)⟩
  · exact ⟨lane,by rw [grows.others _ own]; exact found,use⟩

/-- An issue keeps every piece, and its lane then has a request in flight if it
    has work. -/
theorem issue_keeps (orderly : Orderly t) (now : Nat) (s : Source) :
    Keeps t (t.issue now s) ∧ Busy (t.issue now s) s := by
  cases found : t.lanes.get? s with
  | none =>
    have idle : t.issue now s = t := by simp only [issue,found]
    rw [idle]
    refine ⟨Loses.refl orderly,?_⟩
    intro lane lies
    rw [found] at lies
    cases lies
  | some lane =>
    have grows := issue_grows found now (orderly.within _ _ found)
    refine ⟨?_,grows.busy s (.inl rfl)⟩
    cases use : lane.retired with
    | false =>
      refine grows.keeps orderly ?_
      intro other lies
      rw [found] at lies
      cases lies
      exact use
    | true =>
      obtain ⟨old,new,before,after,retired,estimate,pieces,within,_⟩ := grows.here
      rw [found] at before
      cases before
      have none : new.work = [] := within_nil_of_indices within (by rw [pieces,orderly.gone s lane found use]; rfl)
      refine ⟨⟨?_,?_,?_⟩,fun s' busy => grows.busy s' (.inr busy),?_,?_⟩
      · intro s' other lies
        by_cases same : s' = s
        · subst same; rw [after] at lies; cases lies; exact within
        · rw [grows.verified]; exact orderly.within s' other (by rw [← grows.others s' same]; exact lies)
      · intro s' other lies gone
        by_cases same : s' = s
        · subst same; rw [after] at lies; cases lies; exact none
        · exact orderly.gone s' other (by rw [← grows.others s' same]; exact lies) gone
      · intro s' other lies
        by_cases same : s' = s
        · subst same; rw [after] at lies; cases lies; rw [estimate]; exact orderly.keyed s' lane found
        · exact orderly.keyed s' other (by rw [← grows.others s' same]; exact lies)
      · intro i covered
        rcases covered_iff.mp covered with done | ⟨s',other,lies,holds⟩
        · exact .inl (covered_iff.mpr (.inl (by simpa [isVerified,grows.verified] using done)))
        · have differs : s' ≠ s := by
            rintro rfl
            rw [found] at lies
            cases lies
            rw [(Lane.holds_iff.mp holds).1] at use
            cases use
          exact .inl (covered_iff.mpr (.inr ⟨s',other,by rw [grows.others s' differs]; exact lies,holds⟩))
      · rintro ⟨home,lies,live⟩
        have differs : Source.origin ≠ s := by
          rintro rfl
          rw [found] at lies
          cases lies
          rw [live] at use
          cases use
        exact ⟨home,by rw [grows.others _ differs]; exact lies,live⟩

theorem openLane_live (now : Nat) (estimate : Estimate) (live : Live t s) :
    Live (t.openLane now estimate) s := by
  intro lane found
  rw [openLane_get] at found
  split_ifs at found
  · cases seen : t.lanes.get? s with
    | none => rw [seen] at found; cases found; rfl
    | some old => rw [seen] at found; cases found; exact live old seen
  · exact live lane found
theorem openLane_keeps (orderly : Orderly t) (now : Nat) (estimate : Estimate) :
    Keeps t (t.openLane now estimate) := by
  have cases' : ∀ s lane, (t.openLane now estimate).lanes.get? s = some lane →
      t.lanes.get? s = some lane ∨ (s = estimate.source ∧ lane = Lane.new estimate now) := by
    intro s lane found
    rw [openLane_get] at found
    split_ifs at found with same
    · cases seen : t.lanes.get? s with
      | none => rw [seen] at found; cases found; exact .inr ⟨same,rfl⟩
      | some old => rw [seen] at found; exact .inl found
    · exact .inl found
  have stays : ∀ s lane, t.lanes.get? s = some lane → (t.openLane now estimate).lanes.get? s = some lane := by
    intro s lane found
    rw [openLane_get,found]
    split_ifs <;> rfl
  refine ⟨⟨?_,?_,?_⟩,?_,?_,fun ⟨lane,found,use⟩ => ⟨lane,stays _ lane found,use⟩⟩
  · intro s lane found
    rcases cases' s lane found with old | ⟨_,rfl⟩
    · exact orderly.within s lane old
    · simp [Lane.new,Lane.work,Within]
  · intro s lane found gone
    rcases cases' s lane found with old | ⟨_,rfl⟩
    · exact orderly.gone s lane old gone
    · cases gone
  · intro s lane found
    rcases cases' s lane found with old | ⟨same,rfl⟩
    · exact orderly.keyed s lane old
    · exact same.symm
  · intro s busy lane found some
    rcases cases' s lane found with old | ⟨_,rfl⟩
    · exact busy lane old some
    · exact absurd rfl some
  · intro i covered
    rcases covered_iff.mp covered with done | ⟨s,lane,found,holds⟩
    · exact .inl (covered_iff.mpr (.inl done))
    · exact .inl (covered_iff.mpr (.inr ⟨s,lane,stays s lane found,holds⟩))

theorem queue_keeps (orderly : Orderly t) (now : Nat) (live : Live t s)
    (within : Within t.verified.length ranges) (finishAt : ℚ → ℚ) :
    let t' := ((t.openLane now ⟨s,none,none⟩).extendQueue s ranges finishAt).issue now s
    Keeps t t' ∧ (∀ i ∈ indices ranges, t'.covered i) ∧ (∀ s', Live t s' → Live t' s') := by
  have opened := openLane_keeps orderly now ⟨s,none,none⟩
  have alive := openLane_live now ⟨s,none,none⟩ live
  obtain ⟨lane,found⟩ : ∃ lane, (t.openLane now ⟨s,none,none⟩).lanes.get? s = some lane :=
    ⟨_,by rw [openLane_get,if_pos rfl]⟩
  have grows := extend_grows found now finishAt (opened.orderly.within _ _ found) within
  exact ⟨opened.then (grows.keeps opened.orderly alive),fun i member => grows.covers alive (.inr member),
    fun s' live => grows.live (openLane_live now _ live)⟩
theorem takeAssignments_keeps (now : Nat) (assignments : List Assignment) : ∀ {t : Transfer}, Orderly t →
    (∀ a ∈ assignments, Live t a.source ∧ Within t.verified.length a.ranges) →
      Keeps t (assignments.foldl (takeAssignment now) t) ∧
        ∀ i ∈ dealt assignments, (assignments.foldl (takeAssignment now) t).covered i := by
  induction assignments with
  | nil => intro t orderly _; exact ⟨Loses.refl orderly,by simp [dealt]⟩
  | cons a rest ih =>
    intro t orderly usable
    obtain ⟨live,within⟩ := usable a (by simp)
    obtain ⟨kept,own,lives⟩ := queue_keeps orderly now live within (fun finishAt => max finishAt (projection now a))
    obtain ⟨later,others⟩ := ih (t := takeAssignment now t a) kept.orderly (fun b member => by
      obtain ⟨alive,inside⟩ := usable b (by simp [member])
      exact ⟨lives _ alive,by rw [(takeAssignment_works now t a).verified]; exact inside⟩)
    refine ⟨Loses.then kept later,fun i member => ?_⟩
    rcases List.mem_append.mp (by simpa [dealt] using member : i ∈ indices a.ranges ++ dealt rest) with mine | theirs
    · exact later.kept (own i mine)
    · exact others i theirs
theorem queueOrigin_keeps (mixed : t.peerOnly = false) (orderly : Orderly t) (homed : Homed t)
    (now : Nat) {range : PieceRange} (within : Within t.verified.length [range]) :
    Keeps t (t.queueOrigin now range) ∧ ∀ i ∈ range.indices, (t.queueOrigin now range).covered i := by
  obtain ⟨kept,own,_⟩ := queue_keeps orderly now homed.live within id
  simp only [queueOrigin,mixed,Bool.false_eq_true,if_false]
  exact ⟨kept,fun i member => own i (by simpa using member)⟩

theorem mem_livePeers {entry : Source × Lane} : entry ∈ t.livePeers ↔
    t.lanes.get? entry.1 = some entry.2 ∧ entry.1.isPeer = true ∧ entry.2.retired = false := by
  simp only [livePeers,List.mem_filter,decide_eq_true_eq]
  exact and_congr_left (fun _ => OrderedMap.mem_entries)
theorem live_of_entry (found : t.lanes.get? s = some lane)
    (use : lane.retired = false) : Live t s := by
  intro other here
  rw [found] at here
  cases here
  exact use
theorem assignable_live (orderly : Orderly t) {now : Nat} {e : Estimate}
    (member : e ∈ t.assignable now) : Live t e.source := by
  obtain ⟨entry,listed,same⟩ := List.mem_map.mp member
  obtain ⟨found,_,use⟩ := mem_livePeers.mp listed
  have key : e.source = entry.1 := by
    rw [← same,← orderly.keyed _ _ found]
    dsimp only
    split_ifs <;> rfl
  rw [key]
  exact live_of_entry found use

theorem assignProbes_dealt (t : Transfer) (input : PlanInput) (estimates : List Estimate) :
    ∀ slots needed available,
      dealt (t.assignProbes input estimates slots needed available).1 ++
        (t.assignProbes input estimates slots needed available).2.1 = needed ∧
      Proper (t.assignProbes input estimates slots needed available).1 ∧
      ∀ a ∈ (t.assignProbes input estimates slots needed available).1, ∃ e ∈ estimates, a.source = e.source := by
  induction estimates with
  | nil => intro slots needed available; simp [assignProbes,dealt,Proper]
  | cons estimate rest ih =>
    intro slots needed available
    unfold assignProbes
    cases needed with
    | nil => simp [dealt,Proper]
    | cons index later =>
      simp only
      split_ifs with full probe
      · simp [dealt,Proper]
      · obtain ⟨pieces,proper,offered⟩ := ih (slots - 1) later (available.erase estimate.source)
        have single : indices [⟨index,index+1⟩] = [index] := by simp [PieceRange.indices]
        refine ⟨?_,?_,?_⟩
        · simp only [dealt,List.flatMap_cons,single] at pieces ⊢
          rw [List.append_assoc,pieces]; rfl
        · intro a member
          rcases List.mem_cons.mp member with rfl | tail
          · simp
          · exact proper a tail
        · intro a member
          rcases List.mem_cons.mp member with rfl | tail
          · exact ⟨estimate,by simp,rfl⟩
          · obtain ⟨e,found,same⟩ := offered a tail
            exact ⟨e,by simp [found],same⟩
      · obtain ⟨pieces,proper,offered⟩ := ih slots (index :: later) available
        exact ⟨pieces,proper,fun a member => by
          obtain ⟨e,found,same⟩ := offered a member; exact ⟨e,by simp [found],same⟩⟩
theorem assignPlan_dealt (orderly : Orderly t) (homed : Homed t) (now : Nat) (needed : List Nat) :
    dealt (t.assignPlan now needed).1.assignments = needed ∧ Proper (t.assignPlan now needed).1.assignments ∧
      ∀ a ∈ (t.assignPlan now needed).1.assignments, Live t a.source := by
  obtain ⟨home,found,use⟩ := homed
  have origin : ∀ input : PlanInput, (∀ e ∈ input.peers, e ∈ t.assignable now) →
      input.origin = (t.lanes.get? .origin).map (·.estimate) →
        dealt (plan input).assignments = input.needed ∧ Proper (plan input).assignments ∧
          ∀ a ∈ (plan input).assignments, Live t a.source := by
    intro input offered stems
    rw [found] at stems
    obtain ⟨proper,sources⟩ := plan_proper input
    refine ⟨plan_dealt input (.inr (by simp [stems])),proper,fun a member => ?_⟩
    rcases sources a member with ⟨e,listed,same⟩ | ⟨e,origin,same⟩
    · rw [same]; exact assignable_live orderly (offered e listed)
    · rw [stems] at origin
      cases origin
      rw [same,orderly.keyed _ _ found]
      exact live_of_entry found use
  have joined : ∀ (probed tail : List Assignment) (left : List Nat),
      (dealt probed ++ left = needed ∧ Proper probed ∧ ∀ a ∈ probed, ∃ e ∈ t.assignable now, a.source = e.source) →
      (dealt tail = left ∧ Proper tail ∧ ∀ a ∈ tail, Live t a.source) →
        dealt (probed ++ tail) = needed ∧ Proper (probed ++ tail) ∧ ∀ a ∈ probed ++ tail, Live t a.source := by
    rintro probed tail left ⟨pieces,proper,offered⟩ ⟨rest,tailProper,tailLive⟩
    refine ⟨?_,?_,?_⟩
    · rw [← pieces,← rest]
      simp [dealt]
    · intro a member
      exact (List.mem_append.mp member).elim (proper a) (tailProper a)
    · intro a member
      rcases List.mem_append.mp member with probe | normal
      · obtain ⟨e,listed,same⟩ := offered a probe
        rw [same]
        exact assignable_live orderly listed
      · exact tailLive a normal
  unfold assignPlan
  dsimp only
  by_cases noProbes : t.probePeers = ∅
  · rw [if_pos noProbes]
    exact origin _ (fun _ member => member) rfl
  · rw [if_neg noProbes]
    refine joined _ _ _ (assignProbes_dealt t _ _ _ _ _) (origin _ ?_ rfl)
    intro e member
    dsimp only at member
    split_ifs at member
    · cases member
    · exact (List.mem_filter.mp member).1
theorem assign_keeps (mixed : t.peerOnly = false) (running : t.finished = false) (orderly : Orderly t)
    (homed : Homed t) (now : Nat) (needed : List Nat) (inside : ∀ i ∈ needed, i < t.verified.length) :
    Keeps t (t.assign now needed) ∧ ∀ i ∈ needed, (t.assign now needed).covered i := by
  rcases assign_mixed mixed now needed with ⟨same,none | concluded⟩ | ⟨index,rfl,_,same⟩ | ⟨some,_,same⟩
  · rw [same,none]; exact ⟨Loses.refl orderly,by simp⟩
  · rw [running] at concluded; cases concluded
  · have within : Within t.verified.length [⟨index,index+1⟩] := by
      have := inside index (by simp)
      intro r member
      rw [List.mem_singleton] at member
      subst member
      exact ⟨by simp,this⟩
    obtain ⟨kept,own⟩ := queueOrigin_keeps mixed orderly homed now within
    rw [same]
    exact ⟨kept,fun i member => own i (by
      rw [List.mem_singleton] at member
      simp [member,PieceRange.indices])⟩
  · obtain ⟨pieces,proper,live⟩ := assignPlan_dealt orderly homed now needed
    have planned : (t.assignPlan now needed).1.assignments ≠ [] := by
      intro none
      rw [none] at pieces
      exact some (by simpa [dealt] using pieces.symm)
    have recorded : Keeps t (t.recordPlan (t.assignPlan now needed)) := Loses.same rfl rfl orderly
    have within := within_of_dealt t.verified.length proper (by rw [pieces]; exact inside)
    obtain ⟨kept,own⟩ := takeAssignments_keeps now (t.assignPlan now needed).1.assignments
      (t := t.recordPlan (t.assignPlan now needed)) recorded.orderly
      (fun a member => ⟨live a member,within a member⟩)
    rw [same,assign.assignMany,if_neg planned]
    exact ⟨Loses.then recorded kept,fun i member => own i (by rw [pieces]; exact member)⟩

/-! ### A lane taken out -/

/-- What retiring a lane does: nothing, or the lane is emptied and its unverified
    pieces that nothing else holds are given back. -/
theorem retire_cases (t : Transfer) (s : Source) :
    (t.lanes.get? s = none ∧ t.retire s = (t,[])) ∨
    ∃ lane, t.lanes.get? s = some lane ∧
      (t.retire s).1 = { t with lanes := t.lanes.modify s (fun lane =>
        { lane with retired := true, inFlight := [], queue := [] }) } ∧
      ∀ i, i ∈ (t.retire s).2 ↔ (i ∈ indices lane.work ∧ t.isVerified i = false) ∧
        ¬ (t.retire s).1.inFlightElsewhere i s := by
  unfold retire
  cases found : t.lanes.get? s with
  | none => exact .inl ⟨rfl,rfl⟩
  | some lane =>
    refine .inr ⟨lane,rfl,rfl,fun i => ?_⟩
    dsimp only
    rw [List.mem_filter,List.mem_dedup,List.mem_insertionSort,List.mem_flatMap,mem_indices,decide_eq_true_eq]
    refine and_congr_left (fun _ => ⟨?_,?_⟩)
    · rintro ⟨range,member,kept⟩
      obtain ⟨inside,fresh⟩ := List.mem_filter.mp kept
      obtain ⟨low,high⟩ := mem_range_indices.mp inside
      exact ⟨⟨range,member,low,high⟩,by simpa [isVerified] using fresh⟩
    · rintro ⟨⟨range,member,low,high⟩,fresh⟩
      exact ⟨range,member,List.mem_filter.mpr ⟨mem_range_indices.mpr ⟨low,high⟩,by simpa [isVerified] using fresh⟩⟩
theorem retire_loses (orderly : Orderly t) (peer : s.isPeer = true) :
    Loses t (t.retire s).1 (t.retire s).2 ∧ (∀ i ∈ (t.retire s).2, i < t.verified.length) ∧
      Busy (t.retire s).1 s := by
  rcases retire_cases t s with ⟨missing,same⟩ | ⟨lane,found,after,given⟩
  · rw [same]
    refine ⟨Loses.refl orderly,by simp,?_⟩
    intro other lies
    rw [missing] at lies
    cases lies
  have others : ∀ s', s' ≠ s → (t.retire s).1.lanes.get? s' = t.lanes.get? s' := by
    intro s' differs
    rw [after]
    exact OrderedMap.get?_modify_of_ne _ _ differs
  have here : (t.retire s).1.lanes.get? s = some { lane with retired := true, inFlight := [], queue := [] } := by
    rw [after]
    simp [found]
  have verified : (t.retire s).1.verified = t.verified := (retire_works t s).verified
  have busy : Busy (t.retire s).1 s := by
    intro other lies some
    rw [here] at lies
    cases lies
    exact absurd rfl some
  refine ⟨⟨⟨?_,?_,?_⟩,?_,?_,?_⟩,?_,busy⟩
  · intro s' other lies
    by_cases same : s' = s
    · subst same
      rw [here] at lies
      cases lies
      simp [Lane.work,Within]
    · rw [verified]
      exact orderly.within s' other (by rw [← others s' same]; exact lies)
  · intro s' other lies gone
    by_cases same : s' = s
    · subst same
      rw [here] at lies
      cases lies
      simp [Lane.work]
    · exact orderly.gone s' other (by rw [← others s' same]; exact lies) gone
  · intro s' other lies
    by_cases same : s' = s
    · subst same
      rw [here] at lies
      cases lies
      exact orderly.keyed s' lane found
    · exact orderly.keyed s' other (by rw [← others s' same]; exact lies)
  · intro s' before
    by_cases same : s' = s
    · rw [same]; exact busy
    · intro other lies
      exact before other (by rw [← others s' same]; exact lies)
  · intro i covered
    rcases covered_iff.mp covered with done | ⟨s',other,lies,holds⟩
    · exact .inl (covered_iff.mpr (.inl (by simpa [isVerified,verified] using done)))
    by_cases done : t.isVerified i = true
    · exact .inl (covered_iff.mpr (.inl (by simpa [isVerified,verified] using done)))
    by_cases elsewhere : (t.retire s).1.inFlightElsewhere i s
    · obtain ⟨entry,member,_,held⟩ := elsewhere
      exact .inl (covered_iff.mpr (.inr ⟨entry.1,entry.2,OrderedMap.mem_entries.mp member,held⟩))
    by_cases same : s' = s
    · subst same
      rw [found] at lies
      cases lies
      exact .inr ((given i).mpr ⟨⟨(Lane.holds_iff.mp holds).2,by simpa using done⟩,elsewhere⟩)
    · exact .inl (covered_iff.mpr (.inr ⟨s',other,by rw [others s' same]; exact lies,holds⟩))
  · rintro ⟨home,lies,use⟩
    have differs : Source.origin ≠ s := by
      rintro rfl
      cases peer
    exact ⟨home,by rw [others _ differs]; exact lies,use⟩
  · intro i member
    exact within_lt (orderly.within s lane found) ((given i).mp member).1.1
/-- Taking a peer out of a mixed transfer that runs and reassigning its pieces
    keeps every piece. -/
theorem reassign_keeps (mixed : t.peerOnly = false) (running : t.finished = false)
    (orderly : Orderly t) (homed : Homed t) (now : Nat) (peer : s.isPeer = true) :
    Keeps t (t.reassign now s) := by
  obtain ⟨loses,inside,_⟩ := retire_loses orderly peer
  have works := retire_works t s
  obtain ⟨kept,own⟩ := assign_keeps (works.peerOnly.trans mixed) (works.finished.trans running) loses.orderly
    (loses.homed homed) now ((t.retire s).2.filter (fun index => ¬ (t.retire s).1.covered index))
    (fun i member => by rw [works.verified]; exact inside i (List.mem_filter.mp member).1)
  have whole : Loses t (t.reassign now s) ((t.retire s).2 ++ []) := loses.trans kept
  rw [List.append_nil] at whole
  refine whole.restored (fun i member => ?_)
  by_cases covered : (t.retire s).1.covered i
  · exact kept.kept covered
  · exact own i (List.mem_filter.mpr ⟨member,by simpa using covered⟩)
theorem reassign_works (mixed : t.peerOnly = false) (now : Nat) (s : Source) :
    Works t (t.reassign now s) :=
  (retire_works t s).trans (assign_works ((retire_works t s).peerOnly.trans mixed) now _)

end Transfer
end RelaySwarm.Transfers
