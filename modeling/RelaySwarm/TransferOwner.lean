import RelaySwarm.TransferOnce

/-!
With an exclusive origin every piece has one owner. No two lanes have the same
piece, so no two requests on the wire cover one; origin is asked for more only when
it has answered everything, by one issue; what origin has in flight stays with it
until it is answered, so pieces leave it only out of its queue; and its first issue,
while a probe is in flight, keeps back a short tail.
-/
namespace RelaySwarm.Transfers
open Pieces Planning
namespace Transfer

variable {t t' : Transfer} {i n : Nat}
/-- Any two sources. -/
abbrev Any : Source → Source → Prop := fun _ _ => True
theorem Ready.parted (ready : Ready t) (exclusive : t.exclusiveOrigin = true) : Parted Any t := by
  intro s s' _ differs i mine theirs
  obtain ⟨_,apart⟩ := ready.owned exclusive
  have inFlight : ∀ s, i ∈ indices (t.flight s) → ∃ lane, t.lanes.get? s = some lane ∧ i ∈ indices lane.work := by
    intro s member
    cases found : t.lanes.get? s with
    | none =>
      rw [Transfer.flight,found] at member
      cases member
    | some lane =>
      rw [flight_found found] at member
      exact ⟨lane,rfl,by rw [Lane.work,indices_append]; exact List.mem_append_left _ member⟩
  obtain ⟨lane,found,held⟩ := inFlight s mine
  obtain ⟨lane',found',held'⟩ := inFlight s' theirs
  exact apart s s' lane lane' (Ne.symm differs) found found' i held held'
theorem endgame_exclusive (exclusive : t.exclusiveOrigin = true) (now : Nat) : t.endgame now = t := by
  refine endgame_idle ?_
  cases chosen : t.endgameTarget now with
  | none => rfl
  | some s =>
    have shared := (endgamePieces_shared (endgameTarget_some chosen)).1
    rw [exclusive] at shared
    cases shared

/-! ### One issue of origin at a time -/

/-- Origin is asked when it has nothing outstanding, or right after another request of
    the same issue. -/
def Joined (terms : Terms) (pre : List Entry) : Command → Prop
  | .fetchOrigin _ => (standing terms .origin pre).asked = [] ∨ ∃ pre' range, pre = pre' ++ [.told (.fetchOrigin range)]
  | _ => True

theorem issue_waits (exclusive : t.exclusiveOrigin = true) (flying : t.flight .origin ≠ []) (now : Nat) :
    t.issue now .origin = t := by
  unfold issue
  cases found : t.lanes.get? .origin with
  | none => rfl
  | some lane =>
    rw [flight_found found] at flying
    dsimp only
    rw [if_pos ⟨exclusive,rfl,by simpa using flying⟩]
section
variable {o : Transfer} {log : List Entry}
theorem issue_joined (exclusive : t.exclusiveOrigin = true) (agrees : Agrees o.terms log t)
    (each : Each (Joined o.terms) (log ++ t.told)) (now : Nat) (s : Source) :
    Each (Joined o.terms) (log ++ (t.issue now s).told) := by
  obtain ⟨sent,_,commands⟩ := issue_sends t now s
  cases s with
  | peer p =>
    rw [told,commands,List.map_append,← List.append_assoc]
    refine each.tells _ (fun before c rest split => ?_)
    have member : c ∈ sent.map (requestOf (.peer p)) := by rw [split]; simp
    obtain ⟨range,_,rfl⟩ := List.mem_map.mp member
    trivial
  | origin =>
    by_cases flying : t.flight .origin = []
    · rw [told,commands,List.map_append,← List.append_assoc]
      refine each.tells _ (fun before c rest split => ?_)
      obtain ⟨asked,left,_,rfl,heads⟩ := List.map_eq_append_iff.mp split
      have is : c ∈ left.map (requestOf .origin) := by rw [heads]; simp
      obtain ⟨range,_,rfl⟩ := List.mem_map.mp is
      rcases List.eq_nil_or_concat asked with rfl | ⟨earlier,last,rfl⟩
      · left
        change (standing o.terms .origin (log ++ t.told ++ [])).asked = []
        rw [List.append_nil,agrees.asked,flying]
      · right
        exact ⟨log ++ t.told ++ (earlier.map (requestOf .origin)).map .told,last,by simp [requestOf]⟩
    · rw [issue_waits exclusive flying]
      exact each
theorem each_silent {Q : List Entry → Command → Prop} (each : Each Q (log ++ t.told))
    (commands : t'.commands = t.commands) : Each Q (log ++ t'.told) := by
  have said : t'.told = t.told := by rw [told,commands]; rfl
  rw [said]
  exact each
theorem act_joined (exclusive : t.exclusiveOrigin = true) (agrees : Agrees o.terms log t)
    (each : Each (Joined o.terms) (log ++ t.told)) (act : Act t t') : Each (Joined o.terms) (log ++ t'.told) := by
  cases act with
  | give given =>
    cases given with
    | notes quiet => exact each_silent each quiet.commands
    | @gives s _ _ _ now ranges _ finishAt _ =>
      exact issue_joined (t := t.extendQueue s ranges finishAt) exclusive (agrees.extend s ranges finishAt) each now s
    | @tries s _ _ _ now i _ finishAt _ =>
      exact issue_joined (t := t.extendQueue s [⟨i,i+1⟩] finishAt) exclusive (agrees.extend s [⟨i,i+1⟩] finishAt) each
        now s
    | @issues s _ _ _ now => exact issue_joined exclusive agrees each now s
    | yields => exact each
  | @retires p command stops =>
    obtain ⟨_,same⟩ := retire_frame (t.push command) (.peer p)
    have said : ((t.push command).retire (.peer p)).1.told = t.told ++ [.told command] := by
      rw [same]
      exact told_push t command
    rw [said,← List.append_assoc]
    refine each_append.mpr ⟨each,fun c is => ?_⟩
    cases is
    rcases stops with rfl | rfl | rfl <;> trivial

/-- The journal of an exclusive transfer and its lanes. -/
structure Owned (o : Transfer) (log : List Entry) (t : Transfer) : Prop where
  exclusive : t.exclusiveOrigin = true
  once : Once Any o log t
  joined : Each (Joined o.terms) (log ++ t.told)
end

/-! ### What origin sends stays with origin -/

/-- A piece that origin has in flight, or that is verified, and no peer has. -/
def Kept (i : Nat) (t : Transfer) : Prop := t.exclusiveOrigin = true ∧
  (i ∈ indices (t.flight .origin) ∨ t.isVerified i = true) ∧
    ∀ p lane, t.lanes.get? (.peer p) = some lane → i ∉ indices lane.work
theorem mem_indices_longer {a b : List PieceRange} (longer : a <+: b) (member : i ∈ indices a) :
    i ∈ indices b := by
  obtain ⟨rest,rfl⟩ := longer
  rw [indices_append]
  exact List.mem_append_left _ member
theorem Kept.ungiven (kept : Kept i t) {lane : Lane} {ranges : List PieceRange}
    (fit : Fit t lane ranges) : i ∉ indices ranges := by
  intro given
  obtain ⟨exclusive,flying | verified,_⟩ := kept
  · cases found : t.lanes.get? .origin with
    | none =>
      rw [Transfer.flight,found] at flying
      cases flying
    | some origin =>
      refine fit.alone exclusive i given .origin origin found ?_
      rw [flight_found found] at flying
      rw [Lane.work,indices_append]
      exact List.mem_append_left _ flying
  · rw [fit.fresh i given] at verified
    cases verified
theorem Kept.give (kept : Kept i t) (ready : Ready t) (given : Give t t') : Kept i t' := by
  have works := given.works
  refine ⟨works.exclusive.trans kept.1,?_,?_⟩
  · refine kept.2.1.imp (mem_indices_longer (given.flight .origin)) (fun verified => ?_)
    simp only [isVerified,works.verified]
    exact verified
  · have grown : ∀ {s extra}, Grows t t' s extra → i ∉ extra → ∀ p lane, t'.lanes.get? (.peer p) = some lane →
        i ∉ indices lane.work := by
      intro s extra grows new p lane found
      by_cases own : .peer p = s
      · subst own
        obtain ⟨old,lane',before,after,_,_,pieces,_⟩ := grows.here
        rw [after] at found
        cases found
        rw [pieces,List.mem_append,not_or]
        exact ⟨kept.2.2 p old before,new⟩
      · rw [grows.others _ own] at found
        exact kept.2.2 p lane found
    cases given with
    | notes quiet =>
      intro p lane found
      obtain ⟨old,before,post⟩ := quiet.before found
      rw [← Lane.post_work post]
      exact kept.2.2 p old before
    | gives found _ now fit finishAt _ => exact grown (fit.grows ready.orderly found now finishAt) (kept.ungiven fit)
    | tries found _ now fit finishAt _ =>
      exact grown ((fit.grows ready.orderly found now finishAt).marked _) (kept.ungiven fit)
    | issues found _ now => exact grown (issue_grows found now (ready.orderly.within _ _ found)) (by simp)
    | yields claimed =>
      intro p lane found
      rw [claimOrigin,OrderedMap.get?_modify_of_ne _ _ (by simp)] at found
      exact kept.2.2 p lane found
theorem Kept.thins (kept : Kept i t) (thins : Thins t t')
    (exclusive : t'.exclusiveOrigin = t.exclusiveOrigin)
    (stays : i ∈ indices (t.flight .origin) ∨ t.isVerified i = true →
      i ∈ indices (t'.flight .origin) ∨ t'.isVerified i = true) : Kept i t' := by
  refine ⟨exclusive.trans kept.1,stays kept.2.1,fun p lane found member => ?_⟩
  obtain ⟨old,before,fewer⟩ := thins (.peer p) lane found
  exact kept.2.2 p old before (fewer.subset member)
theorem Kept.retire (kept : Kept i t) (p : Nat) : Kept i (t.retire (.peer p)).1 := by
  obtain ⟨_,same⟩ := retire_frame t (.peer p)
  refine kept.thins (retire_thins t (.peer p)) (by rw [same]) ?_
  rw [retire_flight,if_neg (by simp),same]
  exact id
theorem Kept.act (kept : Kept i t) (ready : Ready t) (act : Act t t') : Kept i t' := by
  cases act with
  | give given => exact kept.give ready given
  | @retires p command => exact Kept.retire (t := t.push command) kept p

section
variable (sha256 : List UInt8 → Digest)

/-- A piece that origin has in flight when a call comes is verified, or stays in
    flight there, unless the call ends the transfer. -/
theorem entered_kept {t u : Transfer} (ready : Ready t) {e : Event} (kept : Kept i t)
    (entered : Entered sha256 t e u) :
    (handle sha256 t e).finished = true ∨ Kept i u := by
  have thins := entered.thins ready.orderly
  cases entered with
  | tick | progress | late | unasked | short | unused => exact .inr kept
  | fails | wrong => exact .inr (kept.retire _)
  | @spoiled now source lane sent range bytes found flying early length bad =>
    cases source with
    | origin =>
      -- Origin's bytes that fail the commitment end the transfer.
      left
      show (t.delivered sha256 now .origin range bytes).finished = true
      rcases delivered_cases sha256 ready.running early .origin range bytes with
        ⟨_,none⟩ | ⟨_,_,_,_,⟨wrong,_⟩ | ⟨_,_,same⟩ | ⟨_,good,_⟩⟩
      · exact absurd rfl (none lane found (range,sent) flying)
      · exact absurd length wrong
      · rw [same]; rfl
      · rw [bad] at good; cases good
    | peer p =>
      obtain ⟨_,flights,_⟩ := response_lanes sha256 ready.orderly found flying bytes
      obtain ⟨frame,_,_,_,grows,_⟩ := response_facts sha256 ready.orderly found flying bytes
      refine .inr (kept.thins thins (by rw [frame]) (Or.imp (fun held => ?_) (grows i)))
      rw [flights,if_neg (by simp)]
      exact held
  | @answered now source lane sent range bytes found flying early length good =>
    obtain ⟨_,flights,_⟩ := response_lanes sha256 ready.orderly found flying bytes
    obtain ⟨frame,_,_,_,grows,_,checked,_⟩ := response_facts sha256 ready.orderly found flying bytes
    obtain ⟨_,_,credit⟩ := credited_frame (response sha256 t source range bytes) source
    right
    refine kept.thins thins (by rw [credit,frame]) ?_
    rw [credit]
    rintro (held | verified)
    · by_cases mine : source = .origin ∧ i ∈ range.indices
      · exact .inr (checked good i mine.2)
      · left
        show i ∈ indices ((response sha256 t source range bytes).transfer.flight .origin)
        rw [flights]
        split_ifs with own
        · subst own
          obtain ⟨r,listed,low,high⟩ := mem_indices.mp held
          refine mem_indices.mpr ⟨r,?_,low,high⟩
          refine (List.mem_erase_of_ne ?_).mpr listed
          rintro rfl
          exact mine ⟨rfl,mem_range_indices.mpr ⟨low,high⟩⟩
        · exact held
    · exact .inr (grows i verified)
theorem handle_kept (ready : Ready t) (busy : t.peerOnly = false → ∀ s, Busy t s) {e : Event}
    (later : e.starts = false) (kept : Kept i t) :
    (handle sha256 t e).finished = true ∨ Kept i (handle sha256 t e) := by
  obtain ⟨w,held,_,ending⟩ := handle_induction sha256 ready busy later
    (P := fun u => (handle sha256 t e).finished = true ∨ Kept i u) (fun u => entered_kept sha256 ready kept)
    (fun u v ready' held act => held.imp id (fun kept' => kept'.act ready' act))
    (fun now _ _ _ held => held.imp id (fun kept' => by rw [endgame_exclusive kept'.1]; exact kept'))
  rcases ending.cases with concluded | same
  · exact .inl concluded
  · rw [same]
    rw [same] at held
    exact held
end

/-! ### The first issue of origin -/

theorem indices_length (ranges : List PieceRange) :
    (indices ranges).length = (ranges.map (fun range => range.stop - range.start)).sum := by
  induction ranges with
  | nil => rfl
  | cons range rest ih => simp [indices_cons,ih,PieceRange.indices]
theorem sendQueue_prefix (cap : Nat) {count : Nat} (queue : List PieceRange) : ∀ (idle : Bool) (ahead : Nat),
    Within count queue → ahead ≤ (indices queue).length →
      (indices (sendQueue true .origin cap idle ahead queue).1).length = ahead := by
  induction queue with
  | nil =>
    intro idle ahead _ fits
    have none : ahead = 0 := by simpa using fits
    rw [none]
    rfl
  | cons range rest ih =>
    intro idle ahead within fits
    obtain ⟨ordered,_⟩ := within range (by simp)
    rw [indices_cons,List.length_append,PieceRange.indices,List.length_range'] at fits
    unfold sendQueue
    rw [if_neg (by simp [Source.isPeer])]
    by_cases none : ahead = 0
    · rw [if_pos ⟨rfl,rfl,none⟩,none]
      rfl
    rw [if_neg (fun all => none all.2.2)]
    simp only [issueCap,if_true,Source.isPeer,Bool.false_eq_true,false_or,true_and]
    split_ifs with cut
    · simp only [indices_cons,indices_nil,List.append_nil,PieceRange.indices,List.length_range']
      omega
    · simp only [indices_cons,List.length_append,PieceRange.indices,List.length_range']
      rw [ih false _ (fun r member => within r (by simp [member])) (by omega)]
      omega
/-- Origin's first issue while a probe is in flight: a prefix that is not empty, and at
    most four pieces and 512 KiB are kept back. -/
theorem first_issue (ready : Ready t) (exclusive : t.exclusiveOrigin = true)
    (unstarted : t.originStarted = false) (early : t.floorReached = false)
    (probing : ∃ probe ∈ t.probePeers, t.flight probe ≠ []) (now : Nat)
    (starts : (t.issue now .origin).originStarted = true) : ∃ lane lane', t.lanes.get? .origin = some lane ∧
      (t.issue now .origin).lanes.get? .origin = some lane' ∧ lane'.inFlight ≠ [] ∧
      indices (lane'.inFlight.map (·.1)) ++ indices lane'.queue = indices lane.queue ∧
      (indices lane'.queue).length ≤ maxPeerRequestPieces ∧
      (indices lane'.queue).length * t.pieceSize ≤ maxPeerRequestBytes := by
  have hold : t.holdTail .origin := by
    obtain ⟨probe,listed,flying⟩ := probing
    refine ⟨exclusive,rfl,unstarted,early,probe,listed,?_⟩
    cases found : t.lanes.get? probe with
    | none => simp [Transfer.flight,found] at flying
    | some lane =>
      have used : lane.retired = false := by
        by_contra gone
        exact flying (unused_flight ready.orderly (by
          rintro ⟨other,here,use⟩
          rw [found] at here
          cases here
          exact gone use))
      rw [flight_found found] at flying
      simpa [used] using flying
  cases found : t.lanes.get? .origin with
  | none =>
    simp only [issue,found] at starts
    rw [unstarted] at starts
    cases starts
  | some lane =>
    have within := (within_append.mp (ready.orderly.within _ _ found)).2
    unfold issue at starts ⊢
    simp only [found,if_pos hold] at starts ⊢
    by_cases held : t.exclusiveOrigin = true ∧ True ∧ lane.inFlight ≠ []
    · rw [if_pos held,unstarted] at starts
      cases starts
    rw [if_neg held] at starts ⊢
    have idle : lane.inFlight = [] := by simpa [exclusive] using held
    rw [← indices_length] at starts ⊢
    have queued : 0 < (indices lane.queue).length := by simpa [unstarted] using starts
    set tail := min (maxPeerRequestBytes / t.pieceSize) maxPeerRequestPieces with cap
    set most := min (max (maxPeerRequestBytes / t.pieceSize) 1) maxPeerRequestPieces
    rw [exclusive]
    have sent := sendQueue_prefix most lane.queue lane.inFlight.isEmpty
      ((indices lane.queue).length - min tail ((indices lane.queue).length - 1)) within (Nat.sub_le _ _)
    have whole := (sendQueue_indices true .origin most t.verified.length lane.queue lane.inFlight.isEmpty
      ((indices lane.queue).length - min tail ((indices lane.queue).length - 1)) within
        (by simp [most,maxPeerRequestPieces])).1
    generalize sendQueue true .origin most lane.inFlight.isEmpty
      ((indices lane.queue).length - min tail ((indices lane.queue).length - 1)) lane.queue = parts at sent whole
    refine ⟨lane,lane.sending now parts.1 parts.2,rfl,by rw [OrderedMap.get?_modify_self,found]; rfl,?_,?_,?_⟩
    · intro none
      have flights := Lane.sending_flight lane now parts.1 parts.2
      rw [none,idle] at flights
      rw [show parts.1 = [] from by simpa using flights.symm] at sent
      simp only [indices_nil,List.length_nil] at sent
      omega
    · rw [Lane.sending_flight,idle]
      simpa [(sending_work lane now parts.1 parts.2).2.1] using whole
    · rw [(sending_work lane now parts.1 parts.2).2.1]
      have left : (indices parts.2).length ≤ tail := by
        have total := congrArg List.length whole
        rw [List.length_append] at total
        omega
      refine ⟨le_trans left (min_le_right _ _),le_trans (Nat.mul_le_mul_right _ (le_trans left (min_le_left _ _))) ?_⟩
      exact Nat.div_mul_le_self _ _

/-! ### Whole runs -/

section
variable (sha256 : List UInt8 → Digest)

theorem run_owned (newborn : Newborn n t) (exclusive : t.exclusiveOrigin = true) {first : Event}
    (begins : Begins t first) {events : List Event} (later : ∀ e ∈ events, e.starts = false) :
    Each (Clear Any t.terms) (journal sha256 t (first :: events)) ∧
      Each (Joined t.terms) (journal sha256 t (first :: events)) := by
  have entered : ∀ log t' e u, Rested n t' → t'.commands = [] → Owned t log t' → Entered sha256 t' e u →
      Owned t (log ++ [.call e]) u := by
    intro log t' e u rested silent owned enters
    have none : u.commands = [] := (enters.silent rested.ready.orderly).trans silent
    refine ⟨(Ground.shared (enters.ground sha256 rested.ready.orderly)).trans owned.exclusive,
      owned.once.entered rested.ready silent enters,?_⟩
    have each := owned.joined
    rw [told,silent,List.map_nil,List.append_nil] at each
    rw [told,none,List.map_nil,List.append_nil]
    exact each.call e
  have act : ∀ log u v, Ready u → Owned t log u → Act u v → Owned t log v := by
    intro log u v ready owned act
    have kept := act.works.exclusive.trans owned.exclusive
    exact ⟨kept,owned.once.act ready act ((act.ready ready).parted kept),
      act_joined owned.exclusive owned.once.agrees owned.joined act⟩
  have drained : ∀ log u, Owned t log u → Owned t (log ++ u.told) u.drainCommands.2 := by
    intro log u owned
    refine ⟨owned.exclusive,owned.once.drained,?_⟩
    have none : u.drainCommands.2.told = [] := rfl
    rw [none,List.append_nil]
    exact owned.joined
  have opened : ∀ u, Opened n t u → Owned t [.call first] u := by
    intro u opened
    refine ⟨opened.exclusive.trans exclusive,opened.once begins,?_⟩
    rw [told,opened.commands,List.map_nil,List.append_nil]
    exact (Each.nil _).call first
  rcases journal_induction sha256 newborn begins (P := Owned t) (C := fun _ _ => True)
    (fun u begun _ => opened u begun)
    (fun log t' e u rested silent _ owned enters => entered log t' e u rested silent owned enters) act
    (fun log t' now _ _ _ _ owned => by rw [endgame_exclusive owned.exclusive]; exact owned) drained later
    (fun _ _ _ _ => trivial) with ⟨_,silent,owned⟩ | ⟨_,before,u,t',calls,owned,ready,concluded,ending,same⟩
  · have clear := owned.once.each
    have joined := owned.joined
    rw [told,silent] at clear joined
    exact ⟨by simpa using clear,by simpa using joined⟩
  · obtain ⟨last,ends,said⟩ := ending_told ready concluded ending
    rw [same,said]
    refine ⟨(owned.once.ended ends).calls calls,Each.calls ?_ calls⟩
    rw [← List.append_assoc,← List.append_assoc]
    refine each_append.mpr ⟨?_,fun c is => ?_⟩
    · have cancels : cancelled u.sending = (u.sending.map .cancel).map .told := by simp [cancelled]
      rw [cancels]
      refine owned.joined.tells _ (fun before c rest split => ?_)
      have member : c ∈ u.sending.map Command.cancel := by rw [split]; simp
      obtain ⟨p,_,rfl⟩ := List.mem_map.mp member
      trivial
    · cases is
      cases last with
      | fetchOrigin => cases ends
      | _ => trivial
theorem run_apart (newborn : Newborn n t) (exclusive : t.exclusiveOrigin = true) {first : Event}
    (begins : Begins t first) {events : List Event} (later : ∀ e ∈ events, e.starts = false) :
    Single (after sha256 t (first :: events)) ∧ Apart (after sha256 t (first :: events)) := by
  rcases run_between sha256 newborn begins later with concluded | rested
  · have empty := run_over sha256 newborn begins later concluded
    refine ⟨single_of_empty empty,fun s _ lane _ _ found _ i member => ?_⟩
    rw [empty s lane found] at member
    cases member
  · exact rested.ready.owned ((Ground.shared (run_ground sha256 newborn begins later)).trans exclusive)
/-- Every run of a transfer with an exclusive origin: a piece is on at most one live
    lane, and once on it; no request is for a piece of an outstanding one, whatever
    their sources; origin is asked with nothing outstanding or in the same issue; a
    piece goes from origin to a peer only out of the unissued queue; and whenever
    origin's first issue comes while a probe is in flight, it sends a prefix that is
    not empty and keeps back at most four pieces and 512 KiB. -/
theorem exclusive_owned {config : TransferConfig} {size : Nat} {digest : String} {pieces : List String}
    {deadline : Nat} {t : Transfer} (made : (new config size digest pieces deadline).bind withExclusiveOrigin = some t)
    {first : Event} (begins : Begins t first) (events : List Event) (later : ∀ e ∈ events, e.starts = false) :
    let log := journal sha256 t (first :: events)
    (∀ pre post, events = pre ++ post → let u := after sha256 t (first :: pre)
      (∀ s lane, u.lanes.get? s = some lane → (indices (lane.inFlight.map (·.1) ++ lane.queue)).Nodup) ∧
      ∀ i s s' lane lane', u.lanes.get? s = some lane → u.lanes.get? s' = some lane' → lane.holds i → lane'.holds i →
        s = s') ∧
    Each (Clear Any t.terms) log ∧ Each (Joined t.terms) log ∧
    (∀ pre e post, events = pre ++ e :: post → ∀ i p lane lane',
      (after sha256 t (first :: pre)).lanes.get? .origin = some lane → lane.holds i →
      (after sha256 t (first :: (pre ++ [e]))).lanes.get? (.peer p) = some lane' → lane'.holds i →
        i ∈ indices lane.queue ∧ i ∉ indices (lane.inFlight.map (·.1))) ∧
    ∀ u now, Ready u → u.exclusiveOrigin = true → u.originStarted = false → u.floorReached = false →
      (∃ probe ∈ u.probePeers, u.flight probe ≠ []) → (u.issue now .origin).originStarted = true →
      ∃ lane lane', u.lanes.get? .origin = some lane ∧ (u.issue now .origin).lanes.get? .origin = some lane' ∧
        lane'.inFlight ≠ [] ∧ indices (lane'.inFlight.map (·.1)) ++ indices lane'.queue = indices lane.queue ∧
        (indices lane'.queue).length ≤ maxPeerRequestPieces ∧
        (indices lane'.queue).length * u.pieceSize ≤ maxPeerRequestBytes := by
  obtain ⟨newborn,mixed,exclusive,_⟩ := exclusive_newborn made
  obtain ⟨clear,joined⟩ := run_owned sha256 newborn exclusive begins later
  have part : ∀ {pre post}, events = pre ++ post → ∀ e ∈ pre, e.starts = false :=
    fun split e member => later e (by simp [split,member])
  refine ⟨fun pre post split => ?_,clear,joined,fun pre e post split i p lane lane' origin held peer taken => ?_,
    fun u now ready own unstarted early probing starts => first_issue ready own unstarted early probing now starts⟩
  · obtain ⟨single,apart⟩ := run_apart sha256 newborn exclusive begins (part split)
    refine ⟨single,fun i s s' lane lane' found found' held held' => ?_⟩
    by_contra differs
    exact apart s s' lane lane' differs found found' i (Lane.holds_iff.mp held).2 (Lane.holds_iff.mp held').2
  · have own := (Lane.holds_iff.mp held).2
    rw [Lane.work,indices_append,List.mem_append] at own
    have resting : i ∉ indices (lane.inFlight.map (·.1)) := by
      intro flying
      rcases run_between sha256 newborn begins (part split) with concluded | rested
      · have none := run_over sha256 newborn begins (part split) concluded .origin lane origin
        rw [(List.append_eq_nil_iff.mp none).1] at flying
        cases flying
      have shared := (Ground.shared (run_ground sha256 newborn begins (part split))).trans exclusive
      obtain ⟨_,apart⟩ := rested.ready.owned shared
      have kept : Kept i (after sha256 t (first :: pre)) := by
        refine ⟨shared,.inl (by rw [flight_found origin]; exact flying),fun q other found member => ?_⟩
        exact apart (.peer q) .origin other lane (by simp) found origin i member (Lane.holds_iff.mp held).2
      have starts := later e (by simp [split])
      have next := after_concat sha256 t (first :: pre) e
      rw [List.cons_append] at next
      have ends : events = (pre ++ [e]) ++ post := by simp [split]
      rcases handle_kept sha256 rested.ready rested.busy starts kept with concluded | ⟨_,_,free⟩
      · have none := run_over sha256 newborn begins (part ends) (by rw [next]; exact concluded) (.peer p) lane' peer
        have member := (Lane.holds_iff.mp taken).2
        rw [none] at member
        cases member
      · rw [next] at peer
        exact free p lane' peer (Lane.holds_iff.mp taken).2
    exact ⟨own.resolve_left resting,resting⟩
private def exclusiveEight : Option Transfer :=
  (new ⟨1,0⟩ 524288 zeroDigest (List.replicate 8 zeroDigest) 1000).bind withExclusiveOrigin
private def probeAndTwoIdle : Event :=
  .start 0 [⟨.peer 1,some 10,some 800⟩,⟨.peer 2,some 10,some 700⟩,⟨.peer 3,none,none⟩]
  ⟨.origin,some 1,some 600⟩ none none [3]
/-- While a probe has its piece, a tick gives an idle peer pieces that origin had not issued. -/
theorem exclusive_owned_after_move : ∃ t,
    (new ⟨1,0⟩ 524288 zeroDigest (List.replicate 8 zeroDigest) 1000).bind withExclusiveOrigin = some t ∧
      (∃ lane lane', (after (fun _ => []) t [probeAndTwoIdle]).lanes.get? .origin = some lane ∧
        (after (fun _ => []) t [probeAndTwoIdle,.tick 1]).lanes.get? (.peer 1) = some lane' ∧ lane'.holds 5 ∧
        5 ∈ indices lane.queue) ∧
      Each (Clear Any t.terms) (journal (fun _ => []) t [probeAndTwoIdle,.tick 1]) := by
  obtain ⟨t,made⟩ := Option.isSome_iff_exists.mp (by decide +kernel : exclusiveEight.isSome = true)
  have begins : Begins t probeAndTwoIdle := .start (fun _ => rfl)
  have owned := exclusive_owned (fun _ => []) made begins [.tick 1] (by simp [Event.starts])
  have moved : exclusiveEight.map (fun t =>
      ((after (fun _ => []) t [probeAndTwoIdle]).lanes.get? .origin).any (fun lane => decide (lane.holds 5)) &&
      ((after (fun _ => []) t [probeAndTwoIdle,.tick 1]).lanes.get? (.peer 1)).any
        (fun lane => decide (lane.holds 5))) =
      some true := by decide +kernel
  rw [show exclusiveEight = some t from made] at moved
  obtain ⟨before,behind⟩ := Bool.and_eq_true_iff.mp (Option.some.inj moved)
  obtain ⟨lane,found,held⟩ := (Option.any_eq_true _ _).mp before
  obtain ⟨lane',found',held'⟩ := (Option.any_eq_true _ _).mp behind
  exact ⟨t,made,⟨lane,lane',found,found',of_decide_eq_true held',
    (owned.2.2.2.1 [] (.tick 1) [] rfl 5 1 lane lane' found (of_decide_eq_true held) found'
      (of_decide_eq_true held')).1⟩,owned.2.1⟩

end
end Transfer
end RelaySwarm.Transfers
