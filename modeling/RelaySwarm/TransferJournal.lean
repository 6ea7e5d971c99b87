import RelaySwarm.TransferRuns

/-!
The journal of a shell: the calls it makes and the commands it is told, in order.
From the journal alone a shell knows what every source was asked and has not
answered (`standing`); the lanes agree with it at every moment (`Agrees`), so a
property of the lanes is one of the requests on the wire. `journal_induction` is
the rule for journals of runs.
-/
namespace RelaySwarm.Transfers
open Pieces Planning

variable {t t' : Transfer} {s : Source} {range : PieceRange}
/-- An entry of the journal: a call of the shell, or a command it is told. -/
inductive Entry where
  | call (e : Event)
  | told (c : Command)

variable {log : List Entry}
/-- What a shell knows of answers: how long one to a range is, and whether one at a
    time counts. -/
structure Terms where
  length : PieceRange → Nat
  counts : Nat → Bool

/-- What a source was asked and has not answered, and whether it was told to stop
    or has failed. -/
structure Standing where
  asked : List PieceRange
  stopped : Bool
deriving DecidableEq

/-- The range a command asks of the source. -/
def Command.asks (s : Source) : Command → Option PieceRange
  | .request p range => if s = .peer p then some range else none
  | .fetchOrigin range => if s = .origin then some range else none
  | _ => none

/-- The standing of a source after one more entry. A failure and a wrong length
    stop a peer, as the commands to stop do. -/
def Standing.next (terms : Terms) (s : Source) (standing : Standing) : Entry → Standing
  | .told (.request p range) => if s = .peer p then { standing with asked := standing.asked ++ [range] } else standing
  | .told (.fetchOrigin range) => if s = .origin then { standing with asked := standing.asked ++ [range] } else standing
  | .told (.cancel p) => if s = .peer p then ⟨[],true⟩ else standing
  | .told (.abandon p) => if s = .peer p then ⟨[],true⟩ else standing
  | .told (.ban p) => if s = .peer p then ⟨[],true⟩ else standing
  | .call (.delivered now source range bytes) =>
    if source = s ∧ range ∈ standing.asked ∧ terms.counts now = true then
      if bytes.length = terms.length range then { standing with asked := standing.asked.erase range }
      else if s.isPeer then ⟨[],true⟩ else standing
    else standing
  | .call (.failed _ source) => if source = s ∧ s.isPeer then ⟨[],true⟩ else standing
  | _ => standing
def standing (terms : Terms) (s : Source) (log : List Entry) : Standing := log.foldl (Standing.next terms s) ⟨[],false⟩

theorem standing_append (terms : Terms) (s : Source) (log : List Entry) (entry : Entry) :
    standing terms s (log ++ [entry]) = (standing terms s log).next terms s entry := by
  simp [standing]
theorem standing_requests (terms : Terms) (s s' : Source) (log : List Entry) (sent : List PieceRange) :
    standing terms s' (log ++ (sent.map (Transfer.requestOf s)).map .told) =
      if s' = s then { standing terms s' log with asked := (standing terms s' log).asked ++ sent }
      else standing terms s' log := by
  induction sent using List.reverseRecOn with
  | nil => split_ifs <;> simp
  | append_singleton sent range ih =>
    rw [List.map_append,List.map_append,← List.append_assoc,List.map_singleton,List.map_singleton,standing_append,ih]
    cases s with
    | origin =>
      simp only [Transfer.requestOf,Standing.next]
      split_ifs <;> simp
    | peer p =>
      simp only [Transfer.requestOf,Standing.next]
      split_ifs <;> simp
theorem standing_stops (terms : Terms) (s : Source) (log : List Entry) {p : Nat} {command : Command}
    (stops : command.stops p) : standing terms s (log ++ [.told command]) =
      if s = .peer p then ⟨[],true⟩ else standing terms s log := by
  rw [standing_append]
  rcases stops with rfl | rfl | rfl <;> rfl

/-- Every command of the journal has the property where it stands. -/
def Each (Q : List Entry → Command → Prop) (log : List Entry) : Prop :=
  ∀ pre c post, log = pre ++ .told c :: post → Q pre c
theorem Each.nil (Q : List Entry → Command → Prop) : Each Q [] := by
  intro pre c post split
  simp at split
theorem each_append {Q : List Entry → Command → Prop} {entry : Entry} :
    Each Q (log ++ [entry]) ↔ Each Q log ∧ ∀ c, entry = .told c → Q log c := by
  constructor
  · intro each
    exact ⟨fun pre c post split => each pre c (post ++ [entry]) (by simp [split]),
      fun c told => each log c [] (by rw [told])⟩
  · rintro ⟨each,last⟩ pre c post split
    rcases List.eq_nil_or_concat post with rfl | ⟨post',entry',rfl⟩
    · obtain ⟨rfl,same⟩ := List.append_inj' split rfl
      exact last c (by simpa using same)
    · have lengths : log = pre ++ .told c :: post' := by
        have := congrArg List.dropLast split
        simpa [List.dropLast_append_of_ne_nil,List.dropLast_cons_of_ne_nil] using this
      exact each pre c post' lengths
theorem Each.call {Q : List Entry → Command → Prop} (each : Each Q log) (e : Event) :
    Each Q (log ++ [.call e]) := each_append.mpr ⟨each,by simp⟩
theorem Each.calls {Q : List Entry → Command → Prop} {log : List Entry} (each : Each Q log) (events : List Event) :
    Each Q (log ++ events.map .call) := by
  induction events using List.reverseRecOn with
  | nil => simpa using each
  | append_singleton events e ih =>
    rw [List.map_append,← List.append_assoc]
    exact ih.call e
theorem Each.tells {Q : List Entry → Command → Prop} (each : Each Q log) (cs : List Command) :
    (∀ before c rest, cs = before ++ c :: rest → Q (log ++ before.map .told) c) → Each Q (log ++ cs.map .told) := by
  induction cs using List.reverseRecOn with
  | nil => intro _; simpa using each
  | append_singleton cs c ih =>
    intro good
    rw [List.map_append,← List.append_assoc]
    refine each_append.mpr ⟨ih (fun before d rest split => good before d (rest ++ [c]) (by simp [split])),?_⟩
    intro d told
    cases told
    exact good cs c [] rfl

namespace Transfer

/-- What a shell knows of answers to a transfer: a peer-only one takes none at or
    after its floor. -/
def terms (t : Transfer) : Terms := ⟨t.rangeLength,fun now => !(t.peerOnly && decide (t.floorAt ≤ now))⟩
def told (t : Transfer) : List Entry := t.commands.map .told

/-- The journal says what the lanes have in flight, and who is told to stop or has
    failed is not in use. -/
structure Agrees (terms : Terms) (log : List Entry) (t : Transfer) : Prop where
  same : t.terms = terms
  asked : ∀ s, (standing terms s (log ++ t.told)).asked = t.flight s
  stopped : ∀ p, (standing terms (.peer p) (log ++ t.told)).stopped = true → ¬ InUse t (.peer p)

theorem terms_eq (size : t'.size = t.size) (pieceSize : t'.pieceSize = t.pieceSize)
    (mode : t'.peerOnly = t.peerOnly) (floor : t'.floorAt = t.floorAt) : t'.terms = t.terms := by
  unfold terms
  rw [mode,floor]
  congr 1
  funext range
  simp only [rangeLength,pieceRangeBytes,size,pieceSize]
theorem Works.terms (works : Works t t') : t'.terms = t.terms :=
  terms_eq (congrArg Fixed.size works.fixed) (congrArg Fixed.pieceSize works.fixed) works.peerOnly works.floorAt
theorem told_push (t : Transfer) (c : Command) : (t.push c).told = t.told ++ [.told c] := by
  simp [told,push]
theorem issue_inUse {now : Nat} {s s' : Source} (used : InUse (t.issue now s) s') : InUse t s' := by
  unfold issue at used
  cases found : t.lanes.get? s with
  | none => rw [found] at used; exact used
  | some lane =>
    rw [found] at used
    dsimp only at used
    split_ifs at used
    · exact used
    all_goals
      obtain ⟨other,here,use⟩ := used
      dsimp only at here
      rw [OrderedMap.get?_modify] at here
      split_ifs at here with own
      · obtain ⟨old,before,rfl⟩ := Option.map_eq_some_iff.mp here
        exact ⟨old,before,by rw [← use]; unfold Lane.sending; dsimp only; split_ifs <;> rfl⟩
      · exact ⟨other,here,use⟩
theorem modify_inUse {s s' : Source} {f : Lane → Lane} (kept : ∀ lane, (f lane).retired = lane.retired)
    (used : InUse { t with lanes := t.lanes.modify s f } s') : InUse t s' := by
  obtain ⟨lane,found,use⟩ := used
  dsimp only at found
  rw [OrderedMap.get?_modify] at found
  split_ifs at found
  · obtain ⟨old,before,rfl⟩ := Option.map_eq_some_iff.mp found
    exact ⟨old,before,(kept old).symm.trans use⟩
  · exact ⟨lane,found,use⟩
theorem retire_inUse {s s' : Source} (used : InUse (t.retire s).1 s') : InUse t s' ∧ s' ≠ s := by
  obtain ⟨lane,found,use⟩ := used
  unfold retire at found
  cases old : t.lanes.get? s with
  | none =>
    rw [old] at found
    exact ⟨⟨lane,found,use⟩,by rintro rfl; rw [old] at found; cases found⟩
  | some mine =>
    rw [old] at found
    dsimp only at found
    rw [OrderedMap.get?_modify] at found
    split_ifs at found with own
    · obtain ⟨before,_,rfl⟩ := Option.map_eq_some_iff.mp found
      cases use
    · exact ⟨⟨lane,found,use⟩,own⟩

section
variable {terms : Terms} {log : List Entry}

theorem Agrees.issue (agrees : Agrees terms log t) (now : Nat) (s : Source) :
    Agrees terms log (t.issue now s) := by
  obtain ⟨sent,flights,commands⟩ := issue_sends t now s
  have said : (t.issue now s).told = t.told ++ (sent.map (requestOf s)).map .told := by
    rw [told,commands,List.map_append]
    rfl
  refine ⟨(issue_works t now s).terms.trans agrees.same,fun s' => ?_,fun p stopped used => ?_⟩
  · rw [said,← List.append_assoc,standing_requests,flights]
    split_ifs with own
    · subst own
      rw [← agrees.asked]
    · exact agrees.asked s'
  · rw [said,← List.append_assoc,standing_requests] at stopped
    refine agrees.stopped p ?_ (issue_inUse used)
    split_ifs at stopped <;> exact stopped
theorem Agrees.quiet (agrees : Agrees terms log t) (same : t'.terms = t.terms)
    (commands : t'.commands = t.commands) (flights : ∀ s, t'.flight s = t.flight s)
    (used : ∀ s, InUse t' s → InUse t s) : Agrees terms log t' := by
  have said : t'.told = t.told := by rw [told,commands]; rfl
  exact ⟨same.trans agrees.same,fun s => by rw [said,flights]; exact agrees.asked s,
    fun p stopped live => agrees.stopped p (by rw [← said]; exact stopped) (used _ live)⟩
theorem Agrees.extend (agrees : Agrees terms log t) (s : Source) (ranges : List PieceRange)
    (finishAt : ℚ → ℚ) : Agrees terms log (t.extendQueue s ranges finishAt) :=
  agrees.quiet (extendQueue_works t s ranges finishAt).terms rfl (fun s' => extendQueue_flight t s s' ranges finishAt)
    (fun _ used => modify_inUse (s := s) (f := fun lane =>
      { lane with queue := lane.queue ++ ranges, finishAt := finishAt lane.finishAt }) (fun _ => rfl) used)
theorem Agrees.give (agrees : Agrees terms log t) (given : Give t t') : Agrees terms log t' := by
  cases given with
  | notes quiet => exact agrees.quiet quiet.works.terms quiet.commands quiet.flight (fun s => quiet.inUse.mp)
  | gives _ _ now _ finishAt _ => exact (agrees.extend _ _ finishAt).issue now _
  | @tries s _ _ _ now i _ finishAt _ =>
    have issued := (agrees.extend s [⟨i,i+1⟩] finishAt).issue now s
    exact ⟨issued.same,issued.asked,issued.stopped⟩
  | issues _ _ now => exact agrees.issue now _
  | yields claimed =>
    exact agrees.quiet (claimOrigin_works t claimed).terms rfl (fun s => flight_modify t .origin s (fun _ => rfl))
      (fun _ used => modify_inUse (s := .origin) (f := fun lane =>
        { lane with queue := runs ((indices lane.queue).filter (fun index => index ∉ claimed)) }) (fun _ => rfl) used)
theorem Agrees.act (agrees : Agrees terms log t) (act : Act t t') : Agrees terms log t' := by
  cases act with
  | give given => exact agrees.give given
  | @retires p command stops _ =>
    have said : ((t.push command).retire (.peer p)).1.told = t.told ++ [.told command] := by
      obtain ⟨_,same⟩ := retire_frame (t.push command) (.peer p)
      rw [same]
      exact told_push t command
    have works := (push_works t (Command.stops_plain stops)).trans (retire_works (t.push command) (.peer p))
    refine ⟨works.terms.trans agrees.same,fun s => ?_,fun q stopped used => ?_⟩
    · rw [said,← List.append_assoc,standing_stops terms s _ stops,retire_flight]
      split_ifs
      · rfl
      · exact agrees.asked s
    · obtain ⟨live,other⟩ := retire_inUse used
      rw [said,← List.append_assoc,standing_stops terms _ _ stops,if_neg other] at stopped
      exact agrees.stopped q stopped live
theorem Agrees.giveTo (agrees : Agrees terms log t) (now : Nat) (s : Source) (range : PieceRange) :
    Agrees terms log (giveTo now s t range) := (agrees.extend s [range] id).issue now s
theorem Agrees.endgame (ready : Ready t) (agrees : Agrees terms log t) (now : Nat) :
    Agrees terms log (t.endgame now) := by
  cases chosen : t.endgameTarget now with
  | none => rw [endgame_idle chosen]; exact agrees
  | some s =>
    exact (endgame_induction ready (P := fun _ u => Agrees terms log u) chosen
      (fun u range rest _ _ _ held => held.giveTo now s range) (agrees.give (.notes (markDuplicated_quiet t)))).1
theorem Agrees.drained (agrees : Agrees terms log t) :
    Agrees terms (log ++ t.told) t.drainCommands.2 := by
  have none : t.drainCommands.2.told = [] := rfl
  exact ⟨agrees.same,fun s => by rw [none,List.append_nil]; exact agrees.asked s,
    fun p stopped => agrees.stopped p (by rw [none,List.append_nil] at stopped; exact stopped)⟩

/-! ### What a call brings -/

theorem unused_flight (orderly : Orderly t) (unused : ¬ InUse t s) : t.flight s = [] := by
  cases found : t.lanes.get? s with
  | none => simp [flight,found]
  | some lane =>
    have gone : lane.retired = true := by
      by_contra use
      exact unused ⟨lane,found,by simpa using use⟩
    have none := orderly.gone s lane found gone
    rw [flight_found found,(List.append_eq_nil_iff.mp none).1]
theorem flying_flight {lane : Lane} (found : t.lanes.get? s = some lane)
    {sent : Nat} (flying : (range,sent) ∈ lane.inFlight) : range ∈ t.flight s := by
  rw [flight_found found]
  exact List.mem_map.mpr ⟨(range,sent),flying,rfl⟩
theorem answered_flight (t : Transfer) (source s : Source) (range : PieceRange) :
    ({ t with lanes := t.lanes.modify source (fun lane => lane.answered range) } : Transfer).flight s =
      if s = source then (t.flight source).erase range else t.flight s := by
  have erased : ∀ flights : List (PieceRange × Nat), (flights.eraseP (·.1 = range)).map (·.1) =
      (flights.map (·.1)).erase range := by
    intro flights
    induction flights with
    | nil => rfl
    | cons f rest ih =>
      by_cases same : f.1 = range
      · simp [same]
      · rw [List.eraseP_cons_of_neg (by simpa using same),List.map_cons,ih,List.map_cons,
          List.erase_cons_tail (by simpa using same)]
  simp only [flight]
  rw [OrderedMap.get?_modify]
  split_ifs with own
  · subst own
    cases t.lanes.get? s with
    | none => rfl
    | some lane => exact erased lane.inFlight
  · rfl
theorem answered_inUse {source s : Source}
    (used : InUse { t with lanes := t.lanes.modify source (fun lane => lane.answered range) } s) : InUse t s :=
  modify_inUse (s := source) (f := fun lane => lane.answered range) (fun _ => rfl) used
/-- The response taken out of flight has the flights and the lanes in use of the
    transfer without it. -/
theorem response_lanes (sha256 : List UInt8 → Digest) (orderly : Orderly t) {source : Source} {lane : Lane}
    (found : t.lanes.get? source = some lane) {sent : Nat} (flying : (range,sent) ∈ lane.inFlight)
    (bytes : List UInt8) : (response sha256 t source range bytes).transfer.terms = t.terms ∧
      (∀ s, (response sha256 t source range bytes).transfer.flight s =
        if s = source then (t.flight source).erase range else t.flight s) ∧
      (∀ s, InUse (response sha256 t source range bytes).transfer s → InUse t s) ∧
      (response sha256 t source range bytes).transfer.commands = t.commands := by
  obtain ⟨frame,_⟩ := response_facts sha256 orderly found flying bytes
  rw [frame]
  exact ⟨rfl,fun s => answered_flight t source s range,fun _ used => answered_inUse used,rfl⟩

section
variable {sha256 : List UInt8 → Digest}

theorem Agrees.entered {t u : Transfer} {e : Event} (ready : Ready t) (silent : t.commands = [])
    (agrees : Agrees terms log t) (entered : Entered sha256 t e u) : Agrees terms (log ++ [.call e]) u := by
  have none : t.told = [] := by rw [told,silent]; rfl
  have asked : ∀ s, (standing terms s log).asked = t.flight s := fun s => by
    rw [← agrees.asked s,none,List.append_nil]
  have stopped : ∀ p, (standing terms (.peer p) log).stopped = true → ¬ InUse t (.peer p) := fun p concluded =>
    agrees.stopped p (by rw [none,List.append_nil]; exact concluded)
  -- Nothing changes, in the journal or on the lanes.
  have idle : (∀ s, (standing terms s log).next terms s (.call e) = standing terms s log) →
      Agrees terms (log ++ [.call e]) t := by
    intro same
    exact ⟨agrees.same,fun s => by rw [none,List.append_nil,standing_append,same,asked],
      fun p concluded => stopped p (by rw [none,List.append_nil,standing_append,same] at concluded; exact concluded)⟩
  -- A peer fails: it is asked nothing from now on.
  have stops : ∀ p, (∀ s, (standing terms s log).next terms s (.call e) =
      if s = .peer p then ⟨[],true⟩ else standing terms s log) →
        Agrees terms (log ++ [.call e]) (t.retire (.peer p)).1 := by
    intro p next
    have silent' : (t.retire (.peer p)).1.told = [] := by
      obtain ⟨_,same⟩ := retire_frame t (.peer p)
      rw [same]
      exact none
    refine ⟨(retire_works t (.peer p)).terms.trans agrees.same,fun s => ?_,fun q concluded used => ?_⟩
    · rw [silent',List.append_nil,standing_append,next,retire_flight]
      split_ifs
      · rfl
      · exact asked s
    · obtain ⟨live,other⟩ := retire_inUse used
      rw [silent',List.append_nil,standing_append,next,if_neg other] at concluded
      exact stopped q concluded live
  -- An answer of the right length leaves what a source was asked.
  have answers : ∀ {now source lane sent range bytes u}, e = .delivered now source range bytes →
      t.lanes.get? source = some lane → (range,sent) ∈ lane.inFlight → (t.peerOnly = true → now < t.floorAt) →
      bytes.length = t.rangeLength range → u.terms = t.terms →
      (∀ s, u.flight s = if s = source then (t.flight source).erase range else t.flight s) →
      (∀ s, InUse u s → InUse t s) → u.commands = t.commands → Agrees terms (log ++ [.call e]) u := by
    intro now source lane sent range bytes u is found flying early length same flights used commands
    have silent' : u.told = [] := by rw [told,commands,silent]; rfl
    have whole : bytes.length = terms.length range := by rw [← agrees.same]; exact length
    have counts : terms.counts now = true := by
      rw [← agrees.same]
      simp only [Transfer.terms,Bool.not_eq_true',Bool.and_eq_false_imp,decide_eq_false_iff_not,not_le]
      exact early
    have next : ∀ s, (standing terms s log).next terms s (.call e) = if s = source then
        { standing terms s log with asked := (standing terms s log).asked.erase range } else standing terms s log := by
      intro s
      rw [is]
      simp only [Standing.next]
      by_cases own : s = source
      · subst own
        rw [if_pos rfl,if_pos ⟨rfl,by rw [asked]; exact flying_flight found flying,counts⟩,if_pos whole]
      · rw [if_neg own,if_neg (fun both => own both.1.symm)]
    refine ⟨same.trans agrees.same,fun s => ?_,fun p concluded live => ?_⟩
    · rw [silent',List.append_nil,standing_append,next,flights]
      split_ifs with own
      · subst own
        rw [← asked]
      · exact asked s
    · rw [silent',List.append_nil,standing_append,next] at concluded
      refine stopped p ?_ (used _ live)
      split_ifs at concluded <;> exact concluded
  cases entered with
  | tick | progress => exact idle (fun _ => rfl)
  | @late now _ _ _ only floor =>
    refine idle (fun s => ?_)
    have late : ¬ terms.counts now = true := by
      rw [← agrees.same]
      simp only [Transfer.terms,only,floor,decide_true,Bool.and_self,Bool.not_true,Bool.false_eq_true,not_false_eq_true]
    simp only [Standing.next]
    rw [if_neg (fun all => late all.2.2)]
  | @unasked _ source range _ unasked =>
    refine idle (fun s => ?_)
    simp only [Standing.next]
    rw [if_neg]
    rintro ⟨rfl,member,_⟩
    rw [asked] at member
    cases found : t.lanes.get? source with
    | none => simp [flight,found] at member
    | some lane =>
      rw [flight_found found] at member
      obtain ⟨sent,flying,same⟩ := List.mem_map.mp member
      exact unasked lane found sent flying same
  | short found flying length =>
    refine idle (fun s => ?_)
    simp only [Standing.next]
    split_ifs with own whole peer
    · exact absurd whole (by rw [← agrees.same]; exact length)
    · obtain ⟨rfl,_⟩ := own
      cases peer
    · rfl
    · rfl
  | @unused now source unused =>
    have nothing : ∀ s, (standing terms s (log ++ [.call (.failed now source)])).asked = t.flight s := by
      intro s
      rw [standing_append]
      simp only [Standing.next]
      split_ifs with own
      · obtain ⟨rfl,peer⟩ := own
        exact (unused_flight ready.orderly (unused peer)).symm
      · exact asked s
    refine ⟨agrees.same,fun s => by rw [none,List.append_nil]; exact nothing s,fun p concluded used => ?_⟩
    rw [none,List.append_nil,standing_append] at concluded
    simp only [Standing.next] at concluded
    split_ifs at concluded with own
    · exact unused (by rw [own.1]; exact own.2) (by rw [own.1]; exact used)
    · exact stopped p concluded used
  | @fails now p used =>
    refine stops p (fun s => ?_)
    simp only [Standing.next]
    by_cases own : s = .peer p
    · subst own; simp [Source.isPeer]
    · rw [if_neg own,if_neg (fun both => own both.1.symm)]
  | @wrong now p lane sent range bytes found flying early length =>
    refine stops p (fun s => ?_)
    simp only [Standing.next]
    by_cases own : s = .peer p
    · subst own
      have counts : terms.counts now = true := by
        rw [← agrees.same]
        simp only [Transfer.terms,Bool.not_eq_true',Bool.and_eq_false_imp,decide_eq_false_iff_not,not_le]
        exact early
      rw [if_pos rfl,if_pos ⟨rfl,by rw [asked]; exact flying_flight found flying,counts⟩,
        if_neg (by rw [← agrees.same]; exact length),if_pos (show (Source.peer p).isPeer = true from rfl)]
    · rw [if_neg own,if_neg (fun both => own both.1.symm)]
  | @spoiled now source lane sent range bytes found flying early length bad =>
    obtain ⟨same,flights,used,commands⟩ := response_lanes sha256 ready.orderly found flying bytes
    exact answers rfl found flying early length same flights used commands
  | @answered now source lane sent range bytes found flying early length good =>
    obtain ⟨same,flights,used,commands⟩ := response_lanes sha256 ready.orderly found flying bytes
    obtain ⟨_,_,frame⟩ := credited_frame (response sha256 t source range bytes) source
    rw [frame]
    exact answers rfl found flying early length same flights used commands
end

/-! ### Journals of runs -/

section
variable (sha256 : List UInt8 → Digest)

/-- The journal of the calls: each is followed by the commands it tells. -/
def journal : Transfer → List Event → List Entry
  | _,[] => []
  | t,e :: rest => .call e :: ((handle sha256 t e).told ++ journal (handle sha256 t e).drainCommands.2 rest)

theorem run_transfer (events : List Event) : ∀ (t : Transfer) (a b : List Command),
    (Shell.run sha256 ⟨t,a⟩ events).transfer = (Shell.run sha256 ⟨t,b⟩ events).transfer := by
  induction events with
  | nil => intro t a b; rfl
  | cons e rest ih => intro t a b; exact ih _ _ _
theorem after_cons (t : Transfer) (e : Event) (events : List Event) :
    after sha256 t (e :: events) = after sha256 (handle sha256 t e).drainCommands.2 events :=
  run_transfer sha256 events _ _ _
theorem journal_concat (events : List Event) (e : Event) : ∀ t : Transfer, journal sha256 t (events ++ [e]) =
    journal sha256 t events ++ (.call e :: (handle sha256 (after sha256 t events) e).told) := by
  induction events with
  | nil => intro t; simp [journal,after,Shell.run]
  | cons first rest ih =>
    intro t
    rw [List.cons_append,journal,ih,journal,after_cons]
    simp
theorem journal_emitted (events : List Event) : ∀ (t : Transfer) (told : List Command),
    (Shell.run sha256 ⟨t,told⟩ events).emitted = told ++ (journal sha256 t events).filterMap (fun entry =>
      match entry with
      | .told c => some c
      | .call _ => none) := by
  induction events with
  | nil => intro t told; simp [Shell.run,journal]
  | cons e rest ih =>
    intro t told
    have step := ih (handle sha256 t e).drainCommands.2 (told ++ (handle sha256 t e).commands)
    rw [journal,List.filterMap_cons,List.filterMap_append,← List.append_assoc]
    refine step.trans ?_
    congr 2
    simp [Transfer.told]

/-- How the journal of an ended run ends: the call that ended it tells the commands
    of the ending, and the calls after it tell nothing. -/
def Ended (P : List Entry → Transfer → Prop) (log : List Entry) : Prop :=
  ∃ (before : List Entry) (u t' : Transfer) (calls : List Event), P before u ∧ Ready u ∧ t'.finished = true ∧
    Ending sha256 u t' ∧
    log = before ++ t'.told ++ calls.map .call

/-- What a start and every step of a call preserve of the journal and the lanes holds
    of the journal of a run, up to the commands that end it. A call may ask a condition
    on itself and the transfer before it. -/
theorem journal_induction {n : Nat} (newborn : Newborn n t) {first : Event} (begins : Begins t first)
    {P : List Entry → Transfer → Prop} {C : Transfer → Event → Prop}
    (opened : ∀ u, Opened n t u → handle sha256 t first = u.assign first.roster.1 (List.range n) → P [.call first] u)
    (entered : ∀ log t e u, Rested n t → t.commands = [] → C t e → P log t → Entered sha256 t e u →
      P (log ++ [.call e]) u)
    (act : ∀ log u v, Ready u → P log u → Act u v → P log v)
    (endgame : ∀ log t now, Rested n t → now < t.floorAt → C t (.tick now) → Ready (t.atEndgame now) →
      P log (t.atEndgame now) → P log ((t.atEndgame now).endgame now))
    (drained : ∀ log u, P log u → P (log ++ u.told) u.drainCommands.2) {events : List Event}
    (later : ∀ e ∈ events, e.starts = false)
    (fair : ∀ pre e post, events = pre ++ e :: post → C (after sha256 t (first :: pre)) e) :
    (Rested n (after sha256 t (first :: events)) ∧ (after sha256 t (first :: events)).commands = [] ∧
        P (journal sha256 t (first :: events)) (after sha256 t (first :: events))) ∨
      ((after sha256 t (first :: events)).finished = true ∧ Ended sha256 P (journal sha256 t (first :: events))) := by
  have acts : ∀ {log u v}, Acts u v → Ready u → P log u → P log v := by
    intro log u v run ready holds
    induction run with
    | refl => exact holds
    | tail first last ih =>
      have part : Acts u _ := first
      exact act log _ _ (part.ready ready) ih last
  -- A call that leaves the transfer running, or ends it.
  have leaves : ∀ {before u t'}, P before u → Ready u → Ending sha256 u t' → (Between n t') →
      (Rested n t'.drainCommands.2 ∧ t'.drainCommands.2.commands = [] ∧ P (before ++ t'.told) t'.drainCommands.2) ∨
      (t'.drainCommands.2.finished = true ∧ Ended sha256 P (before ++ t'.told)) := by
    intro before u t' holds ready ending between
    rcases between with concluded | rested
    · exact .inr ⟨concluded,before,u,t',[],holds,ready,concluded,ending,by simp⟩
    · rcases ending.cases with concluded | same
      · rw [rested.ready.running] at concluded
        cases concluded
      · rw [← same] at holds
        exact .inl ⟨(drained_between (.inr rested)).resolve_left (by simp [drainCommands,rested.ready.running]),rfl,
          drained before t' holds⟩
  induction events using List.reverseRecOn with
  | nil =>
    obtain ⟨u,begun,starts⟩ := begins_opened sha256 newborn begins
    obtain ⟨w,run,ending⟩ := (begun.course first.roster.1).ending sha256
    rw [← starts] at ending
    have left := leaves (acts run begun.ready (opened u begun starts)) (run.ready begun.ready) ending
      (begins_between sha256 newborn begins)
    rw [List.singleton_append] at left
    simp only [journal,List.append_nil]
    exact left
  | append_singleton events e ih =>
    have before := ih (fun e' member => later e' (by simp [member]))
      (fun pre e' post split => fair pre e' (post ++ [e]) (by simp [split]))
    have starts := later e (by simp)
    have state := after_concat sha256 t (first :: events) e
    have log := journal_concat sha256 (first :: events) e t
    rw [List.cons_append] at state log
    rcases before with ⟨rested,silent,holds⟩ | ⟨concluded,a,u,t',calls,holds,ready,ended,ending,same⟩
    · obtain ⟨u,w,enters,run,ending⟩ := handle_cases sha256 rested.ready rested.busy starts
      have asks := fair events e [] rfl
      have enteredP := entered _ _ _ _ rested silent asks holds enters
      have readyU := enters.ready sha256 rested.ready
      have reached : P (journal sha256 t (first :: events) ++ [.call e]) w ∧ Ready w := by
        rcases run with run | ⟨now,rfl,passes⟩
        · exact ⟨acts run readyU enteredP,run.ready readyU⟩
        · have ready' := passes.before.ready readyU
          have middle := (endgame_ready ready' now).1
          rw [passes.ticks] at asks
          exact ⟨acts passes.later middle (endgame _ _ now rested passes.early asks ready'
            (acts passes.before readyU enteredP)),passes.later.ready middle⟩
      have left := leaves reached.1 reached.2 ending (handle_between sha256 rested starts)
      rw [state,log]
      simpa only [List.append_assoc,List.singleton_append] using left
    · have same' := handle_finished sha256 concluded starts
      have none : (after sha256 t (first :: events)).told = [] := by
        rw [told,run_silent]
        rfl
      rw [state,log,same',none,same]
      exact .inr ⟨concluded,a,u,t',calls ++ [e],holds,ready,ended,ending,by simp⟩
end
end
end Transfer
end RelaySwarm.Transfers
