import RelaySwarm.TransferSteady

/-!
Whether a request is worth sending. Within a call each idle peer with queued work has
an unverified piece at the front of its queue (`Sharp`), so that what is sent to it is
not verified. The one exception is a peer that has just answered: the front of its
queue may have come from elsewhere since it was planned (`Stale`), and then it is
asked for it all the same (`stale_asks`).
-/
namespace RelaySwarm.Transfers
open Pieces Planning
namespace Transfer

/-! ### What is sent to an idle peer -/

variable {range : PieceRange} {t t' : Transfer} {ranges : List PieceRange} {p : Nat}
def requestCap (t : Transfer) : Nat := min (max (maxPeerRequestBytes / t.pieceSize) 1) maxPeerRequestPieces
def front (t : Transfer) (range : PieceRange) : PieceRange := ⟨range.start,min (range.start + t.requestCap) range.stop⟩
theorem requestCap_pos (t : Transfer) : 0 < t.requestCap := by
  simp [requestCap,maxPeerRequestPieces]
/-- A peer is sent the front of its queue when nothing is in flight there, and nothing
    otherwise. -/
theorem sendQueue_front (exclusive : Bool) (p : Nat) {cap : Nat} (idle : Bool) (ahead : Nat)
    {rest : List PieceRange} :
    (sendQueue exclusive (.peer p) cap idle ahead (range :: rest)).1 =
      if idle = true then [⟨range.start,min (range.start + cap) range.stop⟩] else [] := by
  cases idle with
  | false => simp [sendQueue,Source.isPeer]
  | true =>
    simp only [sendQueue,Source.isPeer,issueCap,reduceCtorEq,false_and,and_false,if_false,true_or,true_and,
      Bool.true_eq_false,if_true]
    split_ifs with cut
    · rfl
    · have whole : min (range.start + cap) range.stop = range.stop := by omega
      rw [whole,sendQueue_busy]
/-- Every idle peer with queued work has an unverified piece at the front of its queue,
    and so has every request told so far. -/
structure Sharp (t : Transfer) : Prop where
  primed : ∀ p lane range rest, t.lanes.get? (.peer p) = some lane → lane.inFlight = [] → lane.queue = range :: rest →
    ∃ i ∈ (t.front range).indices, t.isVerified i = false
  fresh : ∀ p range, .request p range ∈ t.commands → ∃ i ∈ range.indices, t.isVerified i = false

theorem front_same (pieceSize : t'.pieceSize = t.pieceSize) (range : PieceRange) :
    t'.front range = t.front range := by
  simp only [front,requestCap,pieceSize]
theorem Steady.sharp (steady : Steady t) (none : ∀ p range, .request p range ∉ t.commands) : Sharp t :=
  ⟨fun p lane range rest found idle queued => absurd idle (steady _ lane found (by rw [queued]; simp)),
    fun p range told => absurd told (none p range)⟩
theorem Sharp.same (sharp : Sharp t) (works : Works t t')
    (lanes : ∀ p lane', t'.lanes.get? (.peer p) = some lane' → lane'.inFlight = [] → lane'.queue ≠ [] →
      ∃ lane, t.lanes.get? (.peer p) = some lane ∧ lane.inFlight = [] ∧ lane.queue = lane'.queue)
    (told : ∀ p range, .request p range ∈ t'.commands → .request p range ∈ t.commands) : Sharp t' := by
  refine ⟨fun p lane' range rest found idle queued => ?_,fun p range asked => ?_⟩
  · obtain ⟨lane,before,idle',same⟩ := lanes p lane' found idle (by rw [queued]; simp)
    obtain ⟨i,inside,fresh⟩ := sharp.primed p lane range rest before idle' (same.trans queued)
    exact ⟨i,by rw [front_same works.pieceSize]; exact inside,(works.isVerified i).trans fresh⟩
  · obtain ⟨i,inside,fresh⟩ := sharp.fresh p range (told p range asked)
    exact ⟨i,inside,(works.isVerified i).trans fresh⟩
theorem Sharp.quiet (sharp : Sharp t) (quiet : Quiet t t') : Sharp t' := by
  refine sharp.same quiet.works (fun p lane' found idle _ => ?_) (fun p range told => by rwa [quiet.commands] at told)
  obtain ⟨lane,before,same⟩ := quiet.before found
  obtain ⟨flight,queue,_⟩ := Lane.post_eq same
  exact ⟨lane,before,flight.trans idle,queue⟩
theorem Sharp.issue (sharp : Sharp t) (orderly : Orderly t) (now : Nat) (s : Source) : Sharp (t.issue now s) := by
  have works := issue_works t now s
  have kept : ∀ p, s ≠ .peer p → (t.issue now s).lanes.get? (.peer p) = t.lanes.get? (.peer p) := by
    intro p differs
    cases found : t.lanes.get? s with
    | none => simp only [Transfer.issue,found]
    | some lane => exact (issue_grows found now (orderly.within s lane found)).others _ (Ne.symm differs)
  have busy := (issue_keeps orderly now s).2
  refine ⟨fun p lane' range rest found idle queued => ?_,fun p range asked => ?_⟩
  · by_cases own : s = .peer p
    · subst own
      exact absurd idle (busy lane' found (by rw [queued]; simp))
    · rw [kept p own] at found
      obtain ⟨i,inside,fresh⟩ := sharp.primed p lane' range rest found idle queued
      exact ⟨i,by rw [front_same works.pieceSize]; exact inside,(works.isVerified i).trans fresh⟩
  · have old : .request p range ∈ t.commands → ∃ i ∈ range.indices, (t.issue now s).isVerified i = false := by
      intro before
      obtain ⟨i,inside,fresh⟩ := sharp.fresh p range before
      exact ⟨i,inside,(works.isVerified i).trans fresh⟩
    unfold Transfer.issue at asked
    cases found : t.lanes.get? s with
    | none => rw [found] at asked; exact old asked
    | some lane =>
      rw [found] at asked
      dsimp only at asked
      split_ifs at asked
      · exact old asked
      all_goals
        rcases List.mem_append.mp asked with before | new
        · exact old before
        obtain ⟨sent,member,is⟩ := List.mem_map.mp new
        cases s with
        | origin => cases is
        | peer q =>
          simp only [requestOf,Command.request.injEq] at is
          obtain ⟨rfl,rfl⟩ := is
          cases queued : lane.queue with
          | nil => rw [queued] at member; simp [sendQueue] at member
          | cons first rest =>
            rw [queued,sendQueue_front] at member
            split_ifs at member with idle
            · rw [List.mem_singleton] at member
              obtain ⟨i,inside,fresh⟩ := sharp.primed q lane first rest found (List.isEmpty_iff.mp idle) queued
              rw [member]
              exact ⟨i,inside,(works.isVerified i).trans fresh⟩
            · cases member
theorem Sharp.extend (sharp : Sharp t) (s : Source) (finishAt : ℚ → ℚ)
    (within : Within t.verified.length ranges) (fresh : ∀ i ∈ indices ranges, t.isVerified i = false) :
    Sharp (t.extendQueue s ranges finishAt) := by
  refine ⟨fun p lane' range rest found idle queued => ?_,sharp.fresh⟩
  unfold extendQueue at found
  dsimp only at found
  rw [OrderedMap.get?_modify] at found
  split_ifs at found with own
  · obtain ⟨lane,before,rfl⟩ := Option.map_eq_some_iff.mp found
    dsimp only at idle queued
    cases had : lane.queue with
    | nil =>
      rw [had,List.nil_append] at queued
      have proper := (within range (by rw [queued]; simp)).1
      refine ⟨range.start,?_,fresh range.start (by rw [queued]; simp [indices,PieceRange.indices]; omega)⟩
      have cap := requestCap_pos t
      rw [mem_range_indices]
      simp only [front,requestCap,extendQueue] at cap ⊢
      omega
    | cons first more =>
      rw [had,List.cons_append,List.cons.injEq] at queued
      rw [← queued.1]
      exact sharp.primed p lane first more before idle had
  · exact sharp.primed p lane' range rest found idle queued
theorem extend_orderly (orderly : Orderly t) {s : Source} (used : InUse t s)
    (within : Within t.verified.length ranges) (finishAt : ℚ → ℚ) : Orderly (t.extendQueue s ranges finishAt) := by
  obtain ⟨lane,found,use⟩ := used
  have each : ∀ s' lane', (t.extendQueue s ranges finishAt).lanes.get? s' = some lane' →
      (s' = s ∧ lane' = { lane with queue := lane.queue ++ ranges, finishAt := finishAt lane.finishAt }) ∨
        t.lanes.get? s' = some lane' := by
    intro s' lane' here
    unfold extendQueue at here
    dsimp only at here
    rw [OrderedMap.get?_modify] at here
    split_ifs at here with own
    · obtain ⟨old,before,rfl⟩ := Option.map_eq_some_iff.mp here
      rw [own,found] at before
      cases before
      exact .inl ⟨own,rfl⟩
    · exact .inr here
  refine ⟨fun s' lane' here => ?_,fun s' lane' here gone => ?_,fun s' lane' here => ?_⟩
  · rcases each s' lane' here with ⟨_,rfl⟩ | before
    · show Within t.verified.length _
      have whole := within_append.mpr ⟨orderly.within s lane found,within⟩
      simpa [Lane.work] using whole
    · exact orderly.within s' lane' before
  · rcases each s' lane' here with ⟨_,rfl⟩ | before
    · rw [use] at gone
      cases gone
    · exact orderly.gone s' lane' before gone
  · rcases each s' lane' here with ⟨rfl,rfl⟩ | before
    · exact orderly.keyed _ lane found
    · exact orderly.keyed s' lane' before
theorem Sharp.grow (sharp : Sharp t) (orderly : Orderly t) {s : Source} (used : InUse t s)
    (within : Within t.verified.length ranges)
    (fresh : ∀ i ∈ indices ranges, t.isVerified i = false) (now : Nat) (finishAt : ℚ → ℚ) :
    Sharp ((t.extendQueue s ranges finishAt).issue now s) :=
  (sharp.extend s finishAt within fresh).issue (extend_orderly orderly used within finishAt) now s
theorem Sharp.retire (sharp : Sharp t) (s : Source) : Sharp (t.retire s).1 := by
  obtain ⟨_,frame⟩ := retire_frame t s
  refine sharp.same (retire_works t s) (fun p lane' found idle queued => ?_)
    (fun p range told => by rwa [frame] at told)
  rcases retire_cases t s with ⟨_,same⟩ | ⟨_,_,same,_⟩
  · rw [same] at found
    exact ⟨lane',found,idle,rfl⟩
  · rw [same] at found
    dsimp only at found
    rw [OrderedMap.get?_modify] at found
    split_ifs at found with own
    · obtain ⟨_,_,rfl⟩ := Option.map_eq_some_iff.mp found
      exact absurd rfl queued
    · exact ⟨lane',found,idle,rfl⟩
theorem Sharp.give (sharp : Sharp t) (ready : Ready t) (given : Give t t') : Sharp t' := by
  cases given with
  | notes quiet => exact sharp.quiet quiet
  | gives found use now fit finishAt _ => exact sharp.grow ready.orderly ⟨_,found,use⟩ fit.within fit.fresh now finishAt
  | tries found use now fit finishAt _ =>
    have grown := sharp.grow ready.orderly ⟨_,found,use⟩ fit.within fit.fresh now finishAt
    exact ⟨grown.primed,grown.fresh⟩
  | issues found _ now => exact sharp.issue ready.orderly now _
  | yields claimed =>
    refine sharp.same (claimOrigin_works t claimed) (fun p lane' found idle _ => ?_) (fun p range told => told)
    unfold claimOrigin at found
    dsimp only at found
    rw [OrderedMap.get?_modify_of_ne _ _ (by simp)] at found
    exact ⟨lane',found,idle,rfl⟩
theorem Sharp.act (sharp : Sharp t) (ready : Ready t) (act : Act t t') : Sharp t' := by
  cases act with
  | give given => exact sharp.give ready given
  | @retires p command stops _ =>
    have pushed : Sharp (t.push command) := by
      refine ⟨sharp.primed,fun q range told => ?_⟩
      rcases List.mem_append.mp told with before | new
      · exact sharp.fresh q range before
      · rcases stops with rfl | rfl | rfl <;> simp at new
    exact pushed.retire (.peer p)
theorem Sharp.gives {t t' : Transfer} (sharp : Sharp t) (ready : Ready t) (gives : Gives t t') : Sharp t' := by
  induction gives with
  | refl => exact sharp
  | tail first given ih =>
    have part : Gives t _ := first
    exact ih.give (part.ready ready) given
theorem Sharp.acts (sharp : Sharp t) (ready : Ready t) (acts : Acts t t') : Sharp t' := by
  induction acts with
  | refl => exact sharp
  | tail first act ih =>
    have part : Acts t _ := first
    exact ih.act (part.ready ready) act
theorem Sharp.endgame (sharp : Sharp t) (ready : Ready t) (now : Nat) : Sharp (t.endgame now) := by
  cases chosen : t.endgameTarget now with
  | none => rw [endgame_idle chosen]; exact sharp
  | some s =>
    refine (endgame_induction ready (P := fun ranges u => Sharp u ∧ ∀ i ∈ indices ranges, u.isVerified i = false) chosen
      (fun u range rest ready' used within held => ?_) ⟨sharp.quiet (markDuplicated_quiet t),fun i member => ?_⟩).1.1
    · have works := giveTo_works now s u range
      refine ⟨held.1.grow ready'.orderly used (fun r member => within r (by simp_all)) (fun i member => ?_) now id,
        fun i member => (works.isVerified i).trans (held.2 i (by simp [indices] at member ⊢; tauto))⟩
      exact held.2 i (by simp [indices] at member ⊢; tauto)
    · rw [indices_runs] at member
      exact (mem_endgamePieces member).2

theorem answered_alone {lane : Lane} {sent : Nat} (flying : (range,sent) ∈ lane.inFlight)
    (idle : (lane.answered range).inFlight = []) : lane.inFlight = [(range,sent)] := by
  unfold Lane.answered at idle
  cases flights : lane.inFlight with
  | nil => rw [flights] at flying; cases flying
  | cons first rest =>
    rw [flights] at flying idle
    dsimp only at idle
    rw [List.eraseP_cons] at idle
    cases same : decide (first.1 = range) with
    | true =>
      rw [same,cond_true] at idle
      subst idle
      rw [List.mem_singleton] at flying
      rw [flying]
    | false =>
      rw [same,cond_false] at idle
      cases idle
theorem reassign_complete {t : Transfer} (ready : Ready t) (complete : ∀ i < t.verified.length, t.isVerified i = true)
    {now p : Nat} (early : t.peerOnly = true → now < t.floorAt ∧ ∃ s, InUse (t.retire (.peer p)).1 s) :
    ∃ pending, t.reassign now (.peer p) = { (t.retire (.peer p)).1 with peerPending := pending } := by
  have works := retire_works t (.peer p)
  have ready' := retire_ready ready p
  have none : (t.retire (.peer p)).2 = [] := by
    rcases retire_cases t (.peer p) with ⟨_,same⟩ | ⟨lane,found,_,given⟩
    · rw [same]
    · refine List.eq_nil_iff_forall_not_mem.mpr (fun i member => ?_)
      obtain ⟨⟨held,fresh⟩,_⟩ := (given i).mp member
      rw [complete i (within_lt (ready.orderly.within _ lane found) held)] at fresh
      cases fresh
  unfold reassign
  dsimp only
  rw [none,List.filter_nil]
  generalize (t.retire (.peer p)).1 = u at works ready' early
  unfold assign
  cases mode : t.peerOnly with
  | false => exact ⟨u.peerPending,by rw [if_neg (by simp [works.peerOnly,mode]),if_pos (.inl rfl)]⟩
  | true =>
    obtain ⟨before,s,lane,found,use⟩ := early mode
    rw [if_pos (works.peerOnly.trans mode),List.foldl_nil]
    unfold refillPeerOnly
    dsimp only
    by_cases concluded : u.finished = true ∨ u.started = false
    · exact ⟨u.peerPending,by rw [if_pos concluded]⟩
    have pruned : u.prunePending.peerPending = [] := by
      refine List.filter_eq_nil_iff.mpr (fun i member => ?_)
      have verified := complete i (by rw [← works.verified]; exact ready'.pending i member)
      simpa using covered_iff.mpr (.inl ((works.isVerified i).trans verified))
    have used : ¬ ∀ lane ∈ u.prunePending.lanes.values, lane.retired = true := by
      intro gone
      rw [gone lane (OrderedMap.mem_values.mpr ⟨s,found⟩)] at use
      cases use
    rw [if_neg concluded,if_neg (by rw [works.floorAt]; exact not_le.mpr before),if_neg used,if_pos (.inr pruned)]
    exact ⟨_,rfl⟩
theorem dropRedundant_complete (ready : Ready t) (complete : ∀ i < t.verified.length, t.isVerified i = true)
    {now : Nat} {winner : Source} (early : t.peerOnly = true → now < t.floorAt ∧ InUse t winner)
    (none : ∀ p range, .request p range ∉ t.commands) : ∀ p range,
      .request p range ∉ (t.dropRedundant now winner).commands := by
  refine (dropRedundant_induction ready (P := fun u => (∀ i < u.verified.length, u.isVerified i = true) ∧
    ∀ p range, .request p range ∉ u.commands) early (fun u p ready' early' differs held => ?_) ⟨complete,none⟩).2
  obtain ⟨complete',absent⟩ := held
  have pushed := push_ready ready' (.cancel p)
  have works := retire_works (u.push (.cancel p)) (.peer p)
  obtain ⟨pending,dropped⟩ := @reassign_complete _ pushed complete' now p (fun only => ⟨(early' only).1,winner,
    (retire_tidy (pushed.tidy only) (.peer p)).2 winner (Ne.symm differs) (early' only).2⟩)
  rw [show dropLane now u (.peer p) = _ from dropped]
  refine ⟨fun i inside => (works.isVerified i).trans (complete' i ?_),fun q range told => ?_⟩
  · show i < (u.push (.cancel p)).verified.length
    rw [← works.verified]
    exact inside
  · obtain ⟨_,frame⟩ := retire_frame (u.push (.cancel p)) (.peer p)
    rw [frame] at told
    rcases List.mem_append.mp told with before | new
    · exact absent q range before
    · simp at new

section
variable (sha256 : List UInt8 → Digest)

theorem cancels_request (t : Transfer) (p : Nat) (range : PieceRange) : .request p range ∉ t.cancels := by
  intro member
  obtain ⟨entry,_,is⟩ := List.mem_filterMap.mp member
  split at is
  · split_ifs at is
    cases is
  · cases is
theorem Ending.sharp (ending : Ending sha256 t t')
    (fresh : ∀ p range, .request p range ∈ t.commands → ∃ i ∈ range.indices, t.isVerified i = false) :
    ∀ p range, .request p range ∈ t'.commands → ∃ i ∈ range.indices, t'.isVerified i = false := by
  have failed : ∀ p range, .request p range ∈ t.fail.commands → ∃ i ∈ range.indices, t.isVerified i = false := by
    intro p range told
    simp only [Transfer.fail,push,closeOut,List.mem_append,List.mem_singleton,reduceCtorEq,or_false] at told
    rcases told with before | cancel
    · exact fresh p range before
    · exact absurd cancel (cancels_request t p range)
  cases ending with
  | runs => exact fresh
  | fails => exact failed
  | finishes =>
    intro p range told
    unfold finish at told ⊢
    split_ifs at told ⊢
    · exact failed p range told
    · simp only [push,closeOut,List.mem_append,List.mem_singleton,reduceCtorEq,or_false] at told
      rcases told with before | cancel
      · exact fresh p range before
      · exact absurd cancel (cancels_request t p range)
/-- A peer's answer is accepted and leaves pieces to fetch, but the front of its queue
    has none of them. -/
def Stale (t : Transfer) (e : Event) : Prop := ∃ now p range bytes lane sent next rest,
  e = .delivered now (.peer p) range bytes ∧ t.finished = false ∧ (t.peerOnly = true → now < t.floorAt) ∧
    t.lanes.get? (.peer p) = some lane ∧ lane.inFlight = [(range,sent)] ∧ lane.queue = next :: rest ∧
    bytes.length = t.rangeLength range ∧ (response sha256 t (.peer p) range bytes).bad = false ∧
    (∃ i < t.verified.length, i ∉ range.indices ∧ t.isVerified i = false) ∧
    ∀ i ∈ (t.front next).indices, t.isVerified i = true ∨ i ∈ range.indices
/-- A later call tells a peer to fetch nothing but verified pieces only when its answer
    finds its queue stale. -/
theorem handle_fresh (ready : Ready t) (steady : Steady t) (silent : t.commands = []) {e : Event}
    (later : e.starts = false) (fair : ¬ Stale sha256 t e) : ∀ p range, .request p range ∈
      (handle sha256 t e).commands →
      ∃ i ∈ range.indices, (handle sha256 t e).isVerified i = false := by
  have sharp : Sharp t := steady.sharp (by simp [silent])
  obtain ⟨u,w,enters,run,ending⟩ := handle_cases sha256 ready (fun _ => steady) later
  have ready' := enters.ready sha256 ready
  have reaches : Sharp u → ∀ p range, .request p range ∈ (handle sha256 t e).commands →
      ∃ i ∈ range.indices, (handle sha256 t e).isVerified i = false := by
    intro held
    refine ending.sharp sha256 ?_
    rcases run with acts | ⟨now,rfl,passes⟩
    · exact (held.acts ready' acts).fresh
    · have ready'' := passes.before.ready ready'
      exact (((held.acts ready' passes.before).endgame ready'' now).acts (endgame_ready ready'' now).1
        passes.later).fresh
  cases enters with
  | tick | progress | late | unasked | short | unused => exact reaches sharp
  | fails | wrong => exact reaches (sharp.retire _)
  | @spoiled now source lane sent range bytes found flying early length bad =>
    clear reaches run
    obtain ⟨_,_,_,silent'⟩ := response_lanes sha256 ready.orderly found flying bytes
    rw [silent] at silent'
    rw [spoiled_bans sha256 ready found flying early length bad]
    cases source with
    | origin => exact Ending.sharp sha256 .fails (by simp [silent'])
    | peer p =>
      have act : Act (response sha256 t (.peer p) range bytes).transfer
          (((response sha256 t (.peer p) range bytes).transfer.push (.ban p)).retire (.peer p)).1 :=
        .retires (.inr (.inr rfl)) (fun own => by cases own)
      have taken : Sharp (((response sha256 t (.peer p) range bytes).transfer.push (.ban p)).retire (.peer p)).1 := by
        refine (banned_steady sha256 ready.orderly steady found flying bytes).sharp (fun q asked told => ?_)
        obtain ⟨_,frame⟩ := retire_frame ((response sha256 t (.peer p) range bytes).transfer.push (.ban p)) (.peer p)
        rw [frame] at told
        simp [push,silent'] at told
      rcases badPiece_gives ready' now p with gives | ⟨v,gives,failing⟩
      · exact (taken.gives (act.ready ready') gives).fresh
      · rw [failing]
        exact Ending.sharp sha256 .fails (taken.gives (act.ready ready') gives).fresh
  | @answered now source lane sent range bytes found flying early length good =>
    clear reaches run
    obtain ⟨sent',first,same⟩ := answered_accepts sha256 ready found flying early length good
    obtain ⟨facts,count,_,_,_,others,whole,_⟩ := response_facts sha256 ready.orderly found flying bytes
    obtain ⟨_,_,_,silent'⟩ := response_lanes sha256 ready.orderly found flying bytes
    obtain ⟨_,_,frame⟩ := credited_frame (response sha256 t source range bytes) source
    have checked := response_ready sha256 ready found flying bytes
    have used := response_used sha256 ready found flying bytes early
    rw [same]
    obtain ⟨acts,⟨complete,ended⟩ | ⟨incomplete,ended⟩⟩ :=
      accept_split sha256 checked used sent' first (t.rangeLength range)
    · rw [ended]
      have quiet := measure_quiet (credited (response sha256 t source range bytes) source) now source sent' first
          (t.rangeLength range)
      have noted : Give (credited (response sha256 t source range bytes) source) _ := .notes quiet
      refine Ending.sharp sha256 (.finishes complete) (fun p asked told => absurd told ?_)
      refine dropRedundant_complete (noted.ready ready') (fun i inside => ?_) (fun only => ?_)
        (fun q range' told => ?_) p asked
      · rw [← verified_same (acts.works.verified.trans quiet.verified.symm)]
        exact all_verified complete (by rwa [acts.works.verified,← quiet.verified])
      · have peersOnly : (response sha256 t source range bytes).transfer.peerOnly = true := by
          have := quiet.works.peerOnly.symm.trans only
          rwa [frame] at this
        obtain ⟨before,use⟩ := used peersOnly
        refine ⟨?_,quiet.inUse.mpr ?_⟩
        · rw [quiet.works.floorAt,frame]; exact before
        · rw [frame]; exact use
      · rw [quiet.commands,frame] at told
        simp [silent',silent] at told
    · rw [ended]
      have verified :
          (accepted (response sha256 t source range bytes) now source sent' first (t.rangeLength range)).verified =
          (response sha256 t source range bytes).transfer.verified := acts.works.verified.trans (by rw [frame])
      have missing : ∃ i < t.verified.length, i ∉ range.indices ∧ t.isVerified i = false := by
        obtain ⟨i,inside,fresh⟩ := missing_of_all incomplete
        rw [verified_same verified] at fresh
        have outside : i ∉ range.indices := fun member => by
          rw [whole good i member] at fresh
          cases fresh
        exact ⟨i,by rwa [verified,count] at inside,outside,(others i outside).symm.trans fresh⟩
      have credit : Sharp (credited (response sha256 t source range bytes) source) := by
        rw [frame]
        refine ⟨fun p lane' next rest found' idle queued => ?_,fun p asked told => ?_⟩
        · change (response sha256 t source range bytes).transfer.lanes.get? (.peer p) = some lane' at found'
          by_cases own : source = .peer p
          · subst own
            rw [facts] at found'
            simp only [OrderedMap.get?_modify_self,found,Option.map_some,Option.some.injEq] at found'
            subst found'
            by_contra all
            refine fair ⟨now,p,range,bytes,lane,sent,next,rest,rfl,ready.running,early,found,
              answered_alone flying idle,queued,length,good,missing,fun i member => ?_⟩
            by_contra neither
            obtain ⟨fresh,outside⟩ := not_or.mp neither
            refine all ⟨i,?_,(others i outside).trans (by simpa using fresh)⟩
            rw [facts]
            exact member
          · have busy := response_busy sha256 ready.orderly found flying bytes (Ne.symm own) (steady (.peer p))
            exact absurd idle (busy lane' found' (by rw [queued]; simp))
        · change .request p asked ∈ (response sha256 t source range bytes).transfer.commands at told
          rw [silent',silent] at told
          cases told
      generalize accepted (response sha256 t source range bytes) now source sent' first (t.rangeLength range) = v
        at acts
      have ready'' := acts.ready ready'
      have issued : Sharp (v.issue now source) := (credit.acts ready' acts).issue ready''.orderly now source
      have ready3 := (issue_gives ready'' now source).ready ready''
      rcases refill_course ready3 now with gives | ⟨z,gives,failing⟩
      · exact (issued.gives ready3 gives).fresh
      · rw [failing]
        exact Ending.sharp sha256 .fails (issued.gives ready3 gives).fresh
end

/-! ### What a stale queue leads to -/

/-- The front of the range has been asked of the peer, or the peer is idle with the range
    first in its queue. -/
def Due (p : Nat) (range : PieceRange) (t : Transfer) : Prop := .request p (t.front range) ∈ t.commands ∨
  ∃ lane rest, t.lanes.get? (.peer p) = some lane ∧ lane.retired = false ∧ lane.inFlight = [] ∧
    lane.queue = range :: rest

theorem issue_told (t : Transfer) (now : Nat) (s : Source) {c : Command} (told : c ∈ t.commands) :
    c ∈ (t.issue now s).commands := by
  obtain ⟨sent,_,commands⟩ := issue_sends t now s
  rw [commands]
  exact List.mem_append_left _ told
theorem Due.issued (due : Due p range t) (now : Nat) :
    .request p (t.front range) ∈ (t.issue now (.peer p)).commands := by
  rcases due with told | ⟨lane,rest,found,_,idle,queued⟩
  · exact issue_told t now _ told
  · simp only [issue,found,reduceCtorEq,false_and,and_false,if_false]
    refine List.mem_append_right _ (List.mem_map.mpr ⟨t.front range,?_,rfl⟩)
    rw [queued,sendQueue_front,idle]
    simp [front,requestCap]
theorem Due.issue (due : Due p range t) (ready : Orderly t) (now : Nat)
    (s : Source) : Due p range (t.issue now s) := by
  have same := front_same (issue_works t now s).pieceSize range
  rcases due with told | ⟨lane,rest,found,use,idle,queued⟩
  · left
    rw [same]
    exact issue_told t now s told
  by_cases own : s = .peer p
  · subst own
    left
    rw [same]
    exact Due.issued (.inr ⟨lane,rest,found,use,idle,queued⟩) now
  · right
    refine ⟨lane,rest,?_,use,idle,queued⟩
    cases other : t.lanes.get? s with
    | none => simpa only [Transfer.issue,other] using found
    | some mine => rw [(issue_grows other now (ready.within s mine other)).others _ (Ne.symm own)]; exact found
theorem Due.extend (due : Due p range t) (s : Source) (ranges : List PieceRange)
    (finishAt : ℚ → ℚ) : Due p range (t.extendQueue s ranges finishAt) := by
  refine due.imp id ?_
  rintro ⟨lane,rest,found,use,idle,queued⟩
  unfold extendQueue
  dsimp only
  rw [OrderedMap.get?_modify,found]
  split_ifs
  · exact ⟨_,rest ++ ranges,rfl,use,idle,by simp [queued]⟩
  · exact ⟨lane,rest,rfl,use,idle,queued⟩
theorem Due.give (due : Due p range t) (ready : Ready t) (given : Give t t') :
    Due p range t' := by
  have grown : ∀ {s : Source} {lane : Lane} {ranges : List PieceRange}, t.lanes.get? s = some lane →
      lane.retired = false →
      Fit t lane ranges → ∀ now finishAt, Due p range ((t.extendQueue s ranges finishAt).issue now s) :=
    fun found use fit now finishAt => (due.extend _ _ finishAt).issue
      (extend_orderly ready.orderly ⟨_,found,use⟩ fit.within finishAt) now _
  cases given with
  | notes quiet =>
    have same := front_same quiet.works.pieceSize range
    rcases due with told | ⟨lane,rest,found,use,idle,queued⟩
    · left
      rw [quiet.commands,same]
      exact told
    · obtain ⟨lane',after',kept⟩ := quiet.after found
      obtain ⟨flight,queue,retired,_⟩ := Lane.post_eq kept
      exact .inr ⟨lane',rest,after',retired.trans use,flight.trans idle,queue.trans queued⟩
  | gives found use now fit finishAt _ => exact grown found use fit now finishAt
  | tries found use now fit finishAt _ => exact grown found use fit now finishAt
  | issues found _ now => exact due.issue ready.orderly now _
  | yields claimed =>
    refine due.imp id ?_
    rintro ⟨lane,rest,found,use,idle,queued⟩
    refine ⟨lane,rest,?_,use,idle,queued⟩
    unfold claimOrigin
    dsimp only
    rw [OrderedMap.get?_modify_of_ne _ _ (by simp)]
    exact found
theorem Due.gives {p : Nat} {range : PieceRange} {t t' : Transfer} (due : Due p range t) (ready : Ready t)
    (gives : Gives t t') :
    Due p range t' := by
  induction gives with
  | refl => exact due
  | tail first given ih =>
    have part : Gives t _ := first
    exact ih.give (part.ready ready) given
theorem Due.retire {p q : Nat} (due : Due p range t) (differs : Source.peer q ≠ .peer p)
    (command : Command) : Due p range ((t.push command).retire (.peer q)).1 := by
  obtain ⟨_,frame⟩ := retire_frame (t.push command) (.peer q)
  have same : ((t.push command).retire (.peer q)).1.front range = t.front range := by rw [frame]; rfl
  rcases due with told | ⟨lane,rest,found,use,idle,queued⟩
  · left
    rw [same,frame]
    exact List.mem_append_left _ told
  · right
    refine ⟨lane,rest,?_,use,idle,queued⟩
    rcases retire_cases (t.push command) (.peer q) with ⟨_,unchanged⟩ | ⟨_,_,taken,_⟩
    · rw [unchanged]; exact found
    · rw [taken]
      dsimp only
      rw [OrderedMap.get?_modify_of_ne _ _ (Ne.symm differs)]
      exact found
theorem Due.dropRedundant (due : Due p range t) (ready : Ready t) {now : Nat}
    (early : t.peerOnly = true → now < t.floorAt ∧ InUse t (.peer p)) : Due p range (t.dropRedundant now (.peer p)) :=
  dropRedundant_induction ready early (fun _ q ready' early' differs due' =>
    (due'.retire differs _).gives (retire_ready (push_ready ready' (.cancel q)) q)
      (dropLane_gives ready' differs early')) due

section
variable (sha256 : List UInt8 → Digest)

theorem stale_asks (ready : Ready t) {e : Event} (stale : Stale sha256 t e) :
    ∃ p range, .request p range ∈ (handle sha256 t e).commands ∧
      ∀ i ∈ range.indices, (handle sha256 t e).isVerified i = true := by
  obtain ⟨now,p,range,bytes,lane,sent,next,rest,rfl,_,early,found,alone,queued,length,good,missing,verified⟩ := stale
  have flying : (range,sent) ∈ lane.inFlight := by rw [alone]; simp
  obtain ⟨sent',first,same⟩ := answered_accepts sha256 ready found flying early length good
  obtain ⟨facts,count,_,_,grows,others,whole,_⟩ := response_facts sha256 ready.orderly found flying bytes
  obtain ⟨_,_,frame⟩ := credited_frame (response sha256 t (.peer p) range bytes) (.peer p)
  have checked := response_ready sha256 ready found flying bytes
  have used := response_used sha256 ready found flying bytes early
  have ready' := credited_ready checked (.peer p)
  -- The peer is idle, with the stale range first in its queue.
  have due : Due p next (credited (response sha256 t (.peer p) range bytes) (.peer p)) := by
    right
    obtain ⟨own,here,use⟩ := flying_used ready found flying
    rw [found] at here
    cases here
    refine ⟨lane.answered range,rest,?_,use,?_,queued⟩
    · rw [frame,facts]
      dsimp only
      rw [OrderedMap.get?_modify_self,found]
      rfl
    · simp [Lane.answered,alone]
  have quiet := measure_quiet (credited (response sha256 t (.peer p) range bytes) (.peer p)) now (.peer p) sent' first
    (t.rangeLength range)
  have noted : Give (credited (response sha256 t (.peer p) range bytes) (.peer p)) _ := .notes quiet
  have dropped : Due p next (accepted (response sha256 t (.peer p) range bytes) now (.peer p) sent' first
      (t.rangeLength range)) := by
    refine (due.give ready' noted).dropRedundant (noted.ready ready') (fun only => ?_)
    have peersOnly : (response sha256 t (.peer p) range bytes).transfer.peerOnly = true := by
      have := quiet.works.peerOnly.symm.trans only
      rwa [frame] at this
    obtain ⟨before,use⟩ := used peersOnly
    exact ⟨by rw [quiet.works.floorAt,frame]; exact before,quiet.inUse.mpr (by rw [frame]; exact use)⟩
  obtain ⟨acts,⟨complete,_⟩ | ⟨_,ended⟩⟩ := accept_split sha256 checked used sent' first (t.rangeLength range)
  · obtain ⟨i,inside,outside,fresh⟩ := missing
    have same' :
        (accepted (response sha256 t (.peer p) range bytes) now (.peer p) sent' first (t.rangeLength range)).verified =
        (response sha256 t (.peer p) range bytes).transfer.verified := acts.works.verified.trans (by rw [frame])
    have done := all_verified complete (i := i) (by rw [same',count]; exact inside)
    rw [verified_same same',others i outside,fresh] at done
    cases done
  rw [same,ended]
  have start : ∀ i ∈ (t.front next).indices, (response sha256 t (.peer p) range bytes).transfer.isVerified i = true :=
    fun i member => (verified i member).elim (grows i) (whole good i)
  have named :
      (accepted (response sha256 t (.peer p) range bytes) now (.peer p) sent' first (t.rangeLength range)).front next =
      t.front next := front_same (acts.works.pieceSize.trans (by rw [frame,facts])) next
  have kept : ∀ i, (accepted (response sha256 t (.peer p) range bytes) now (.peer p) sent' first
      (t.rangeLength range)).isVerified i = (response sha256 t (.peer p) range bytes).transfer.isVerified i :=
    fun i => verified_same (acts.works.verified.trans (by rw [frame]))
  generalize accepted (response sha256 t (.peer p) range bytes) now (.peer p) sent' first (t.rangeLength range) = v
    at acts dropped named kept
  have ready2 := acts.ready ready'
  have issued := issue_gives ready2 now (.peer p)
  have asked := dropped.issued now
  rw [named] at asked
  have still : ∀ i ∈ (t.front next).indices, (v.issue now (.peer p)).isVerified i = true :=
    fun i member => (issued.works.isVerified i).trans ((kept i).trans (start i member))
  refine ⟨p,t.front next,?_⟩
  rcases refill_course (issued.ready ready2) now with gives | ⟨z,gives,failing⟩
  · exact ⟨gives.works.keeps_told asked,fun i member => (gives.works.isVerified i).trans (still i member)⟩
  · rw [failing]
    refine ⟨?_,fun i member => (gives.works.isVerified i).trans (still i member)⟩
    exact List.mem_append_left _ (List.mem_append_left _ (gives.works.keeps_told asked))
theorem begins_fresh {n : Nat} (newborn : Newborn n t) {first : Event} (begins : Begins t first) :
    ∀ p range, .request p range ∈ (handle sha256 t first).commands →
      ∃ i ∈ range.indices, (handle sha256 t first).isVerified i = false := by
  obtain ⟨u,opened,same⟩ := begins_opened sha256 newborn begins
  obtain ⟨w,acts,ending⟩ := (opened.course first.roster.1).ending sha256
  rw [← same] at ending
  have sharp : Sharp u := opened.idle.steady.sharp (by simp [opened.commands])
  exact ending.sharp sha256 (sharp.acts opened.ready acts).fresh
/-- Every run of every transfer: each request to a peer has a piece that is not verified
    then (a call verifies before it asks), if and only if no answer leaves its peer with
    a stale queue. -/
theorem requests_fresh_iff {config : TransferConfig} {size : Nat} {digest : String} {pieces : List String}
    {deadline : Nat} {t : Transfer} (made : new config size digest pieces deadline = some t ∨
      (new config size digest pieces deadline).bind withExclusiveOrigin = some t ∨
      newPeerOnly config size digest pieces deadline = some t)
    {first : Event} (begins : Begins t first) (events : List Event) (later : ∀ e ∈ events, e.starts = false) :
    (∀ pre e post, first :: events = pre ++ e :: post → ∀ p range,
      .request p range ∈ (handle sha256 (after sha256 t pre) e).commands →
        ∃ i ∈ range.indices, (handle sha256 (after sha256 t pre) e).isVerified i = false) ↔
      ∀ pre e post, events = pre ++ e :: post → ¬ Stale sha256 (after sha256 t (first :: pre)) e := by
  have newborn := (made_newborn made).1
  have part : ∀ {pre post}, events = pre ++ post → ∀ e ∈ pre, e.starts = false :=
    fun split e member => later e (by simp [split,member])
  constructor
  · intro fresh pre e post split stale
    rcases run_between sha256 newborn begins (part split) with concluded | rested
    · obtain ⟨_,_,_,_,_,_,_,_,_,running,_⟩ := stale
      rw [concluded] at running
      cases running
    obtain ⟨p,range,asked,verified⟩ := stale_asks sha256 rested.ready stale
    obtain ⟨i,member,missing⟩ := fresh (first :: pre) e post (by simp [split]) p range asked
    rw [verified i member] at missing
    cases missing
  · intro fair pre e post split
    rcases pre with _ | ⟨first',pre⟩
    · obtain ⟨rfl,rfl⟩ : first = e ∧ events = post := by simpa using split
      exact begins_fresh sha256 newborn begins
    · obtain ⟨rfl,rest⟩ : first = first' ∧ events = pre ++ e :: post := by simpa using split
      have starts := later e (by simp [rest])
      have silent := run_silent sha256 t first pre
      rcases run_between sha256 newborn begins (part rest) with concluded | rested
      · rw [handle_finished sha256 concluded starts]
        intro p range told
        rw [silent] at told
        cases told
      · exact handle_fresh sha256 rested.ready (run_steady sha256 newborn begins (part rest)) silent starts
          (fair pre e post rest)
private def allZero : List UInt8 → Digest := fun _ => List.replicate 32 0
private def pieceAndByte : Option Transfer := new ⟨2,0⟩ 65537 zeroDigest (List.replicate 2 zeroDigest) 1000
private def bothAsked : Event :=
  .start 0 [⟨.peer 1,some 10,some 800⟩,⟨.peer 2,some 10,some 700⟩] ⟨.origin,some 1,some 60⟩ none none []
/-- The second peer answers, and the first fails: the second is asked for what is missing. -/
theorem requests_fresh_after_answer : ∃ t, new ⟨2,0⟩ 65537 zeroDigest (List.replicate 2 zeroDigest) 1000 = some t ∧
    let u := handle allZero (after allZero t [bothAsked,.delivered 2 (.peer 2) ⟨1,2⟩ [0]]) (.failed 3 (.peer 1))
    .request 2 ⟨0,1⟩ ∈ u.commands ∧ ∃ i ∈ (⟨0,1⟩ : PieceRange).indices, u.isVerified i = false := by
  obtain ⟨t,made⟩ := Option.isSome_iff_exists.mp (by decide +kernel : pieceAndByte.isSome = true)
  have begins : Begins t bothAsked := .start (fun _ => rfl)
  have evaluated : pieceAndByte.map (fun t => (((after allZero t [bothAsked]).lanes.get? (.peer 2)).map (·.queue),
      decide (.request 2 ⟨0,1⟩ ∈ (handle allZero (after allZero t [bothAsked,.delivered 2 (.peer 2) ⟨1,2⟩ [0]])
        (.failed 3 (.peer 1))).commands))) = some (some [],true) := by decide +kernel
  rw [show pieceAndByte = some t from made] at evaluated
  have evaluated := Option.some.inj evaluated
  simp only [Prod.mk.injEq] at evaluated
  have told := of_decide_eq_true evaluated.2
  refine ⟨t,made,told,
    (requests_fresh_iff allZero (.inl made) begins [.delivered 2 (.peer 2) ⟨1,2⟩ [0],.failed 3 (.peer 1)]
    (by simp [Event.starts])).mpr ?_ [bothAsked,.delivered 2 (.peer 2) ⟨1,2⟩ [0]] _ [] rfl 2 ⟨0,1⟩ told⟩
  rintro pre e post split ⟨_,p,_,_,lane,_,_,_,rfl,_,_,found,_,queued,_⟩
  rcases pre with _ | ⟨e',_ | ⟨e'',rest⟩⟩ <;> simp at split
  obtain ⟨⟨_,rfl,_,_⟩,_⟩ := split
  have empty := evaluated.1
  rw [found,Option.map_some,queued] at empty
  cases empty

private def sixteenPieces : Option Transfer := new ⟨3,0⟩ 1048576 zeroDigest (List.replicate 16 zeroDigest) 1000
private def zeros (length : Nat) : List UInt8 := List.replicate length 0
private def probeAndTwo : Event := .start 0 [⟨.peer 1,none,none⟩,⟨.peer 2,some 0,some 263⟩,⟨.peer 3,some 0,some 263⟩]
  ⟨.origin,some 1,some 10⟩ none none [1]
private def untilStale : List Event := [.failed 1 (.peer 2),.failed 1 (.peer 3),
  .delivered 2 (.peer 1) ⟨0,1⟩ (zeros 65536),.delivered 3 .origin ⟨5,9⟩ (zeros 262144)]
/-- Two peers fail and origin takes their pieces; a probe answers and is given the same
    pieces, eight of them in two requests. Origin sends the last four, and then the
    first request of the peer is answered: it is asked for those four again. -/
theorem verified_pieces_asked : ∃ t, new ⟨3,0⟩ 1048576 zeroDigest (List.replicate 16 zeroDigest) 1000 = some t ∧
    let u := after allZero t (probeAndTwo :: untilStale)
    let v := handle allZero u (.delivered 4 (.peer 1) ⟨1,5⟩ (zeros 262144))
    .request 1 ⟨5,9⟩ ∈ v.commands ∧ ∀ i ∈ (⟨5,9⟩ : PieceRange).indices, v.isVerified i = true := by
  obtain ⟨t,made⟩ := Option.isSome_iff_exists.mp (by decide +kernel : sixteenPieces.isSome = true)
  have made' : new ⟨3,0⟩ 1048576 zeroDigest (List.replicate 16 zeroDigest) 1000 = some t := made
  have newborn := (new_newborn made').1
  have begins : Begins t probeAndTwo := .start (fun _ => rfl)
  have lengths : sixteenPieces.map (fun t => (t.rangeLength ⟨0,1⟩,t.rangeLength ⟨5,9⟩,t.rangeLength ⟨1,5⟩)) =
      some (65536,262144,262144) := by decide +kernel
  have ends : sixteenPieces.map (fun t =>
      let v := replay allZero (untilStale.foldl (fun u e => (replay allZero u e).drainCommands.2)
        (handle allZero t probeAndTwo).drainCommands.2) (.delivered 4 (.peer 1) ⟨1,5⟩ (zeros 262144))
      (v.commands,v.verified)) = some ([.request 1 ⟨5,9⟩],List.replicate 9 true ++ List.replicate 7 false) := by
    decide +kernel
  rw [made] at lengths ends
  have lengths := Option.some.inj lengths
  have ends := Option.some.inj ends
  simp only [Prod.mk.injEq] at lengths ends
  have later : ∀ e ∈ untilStale, e.starts = false := by simp [untilStale,Event.starts]
  have whole : ∀ length, (zeros length).length = length := fun length => List.length_replicate
  have run := after_replay allZero newborn begins later (by
    intro now source range bytes member
    simp only [untilStale,List.mem_cons,reduceCtorEq,Event.delivered.injEq,false_or,List.not_mem_nil,or_false] at member
    rcases member with ⟨_,_,rfl,rfl⟩ | ⟨_,_,rfl,rfl⟩
    · rw [lengths.1,whole]
    · rw [lengths.2.1,whole])
  have last := handle_replay allZero (t := after allZero t (probeAndTwo :: untilStale))
    (e := .delivered 4 (.peer 1) ⟨1,5⟩ (zeros 262144)) (by
      intro now source range bytes is
      cases is
      rw [Ground.rangeLength (run_ground allZero newborn begins later),lengths.2.2,whole])
  refine ⟨t,made',?_⟩
  dsimp only
  rw [last,run]
  refine ⟨by rw [ends.1]; simp,?_⟩
  simp only [isVerified,ends.2]
  decide
end
end Transfer
end RelaySwarm.Transfers
