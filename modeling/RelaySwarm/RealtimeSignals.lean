import RelaySwarm.Journal
import RelaySwarm.RealtimePeer

/-!
What a real-time peer makes of its signals. `Sound` holds of every state a peer reaches:
the candidates that came for the request id are those that were passed to the native
connection and behind them those that wait, in the order in which they came, and none is
passed while there is no remote description.
-/
namespace RelaySwarm.RealtimePeer
open JsonText ObjectTransfer

/-! ### Journals -/

def Action.passes : Action → Option Value
  | .addIceCandidate candidate => some candidate
  | _ => none
def Action.applies : Action → Option (Kind × Text)
  | .setRemoteDescription type sdp => some (type,sdp)
  | _ => none
/-- The candidate that a signal out carries. -/
def Action.signals : Action → Option Value
  | .sendSignal type _ payload => if type = lit "candidate" then field payload (lit "candidate") else none
  | _ => none
def Action.ends : Action → Option Reason
  | .onClose reason => some reason
  | _ => none
def Action.candidate (a : Action) : Prop := ∃ id payload, a = .sendSignal (lit "candidate") id payload
def Action.describes (a : Action) : Prop :=
  ∃ (type : Kind) (id : Option Text) (payload : List (Text × Value)), a = .sendSignal type.text id payload

def passed (log : List Action) : List Value := log.filterMap Action.passes
def applied (log : List Action) : List (Kind × Text) := log.filterMap Action.applies
def signalled (log : List Action) : List Value := log.filterMap Action.signals
def endings (log : List Action) : List Reason := log.filterMap Action.ends

section
variable (before after : List Action)
@[simp] theorem passed_append : passed (before ++ after) = passed before ++ passed after := List.filterMap_append
@[simp] theorem applied_append : applied (before ++ after) = applied before ++ applied after := List.filterMap_append
@[simp] theorem signalled_append : signalled (before ++ after) = signalled before ++ signalled after :=
  List.filterMap_append
@[simp] theorem endings_append : endings (before ++ after) = endings before ++ endings after := List.filterMap_append
end

/-- An action of no weight: it passes no candidate, applies no description and signals
    nothing. -/
def Action.quiet : Action → Bool
  | .sendSignal .. | .setRemoteDescription .. | .addIceCandidate _ => false
  | _ => true

section
variable {more : List Action} (quiet : ∀ a ∈ more, a.quiet = true)
include quiet
theorem passed_quiet : passed more = [] := by
  apply List.filterMap_eq_nil_iff.mpr
  intro a member
  have still := quiet a member
  cases a <;> first | rfl | cases still
theorem applied_quiet : applied more = [] := by
  apply List.filterMap_eq_nil_iff.mpr
  intro a member
  have still := quiet a member
  cases a <;> first | rfl | cases still
theorem signalled_quiet : signalled more = [] := by
  apply List.filterMap_eq_nil_iff.mpr
  intro a member
  have still := quiet a member
  cases a <;> first | rfl | cases still
theorem unsent_quiet : ∀ a ∈ more, ¬ a.candidate ∧ ¬ a.describes := by
  intro a member
  have still := quiet a member
  constructor
  · rintro ⟨id,payload,rfl⟩
    cases still
  · rintro ⟨type,id,payload,rfl⟩
    cases still
end

def State.closing (s : State) (reason : Reason) : List Action :=
  (if s.link then s.shut else []) ++ s.shut ++ [.onClose reason]
theorem shut_member {s : State} {a : Action} (member : a ∈ s.shut) : a = .closeChannel ∨ a = .closeConnection := by
  unfold State.shut at member
  split at member
  · simpa using member
  · simp only [List.nil_append,List.mem_singleton] at member
    exact .inr member
theorem shut_endings (s : State) : endings s.shut = [] := by
  apply List.filterMap_eq_nil_iff.mpr
  intro a member
  rcases shut_member member with rfl | rfl <;> rfl
theorem closing_endings (s : State) (reason : Reason) : endings (s.closing reason) = [reason] := by
  rw [State.closing,endings_append,endings_append,shut_endings]
  split
  · rw [shut_endings]
    rfl
  · rfl
theorem closing_quiet (s : State) (reason : Reason) : ∀ a ∈ s.closing reason, a.quiet = true := by
  have shut : ∀ a ∈ s.shut, a.quiet = true := by
    intro a member
    rcases shut_member member with rfl | rfl <;> rfl
  intro a member
  rcases List.mem_append.mp member with closed | last
  · rcases List.mem_append.mp closed with linked | own
    · split at linked
      · exact shut a linked
      · cases linked
    · exact shut a own
  · rw [List.mem_singleton.mp last]
    rfl

/-! ### What a signal out leaves as it is -/

theorem close_sent (s : State) (reason : Reason) :
    (s.close reason).descriptionSent = s.descriptionSent ∧ (s.close reason).sentCandidates = s.sentCandidates := by
  rw [State.close]
  split <;> exact ⟨rfl,rfl⟩
/-- A peer that has sent a signal. -/
def State.told (s : State) (type : Text) (payload : List (Text × Value)) : State :=
  { s with calls := s.calls + 1,log := s.log ++ [.sendSignal type s.requestId payload] }
theorem signal_cases (refuses : Nat → Bool) (s : State) (type : Text) (payload : List (Text × Value)) :
    s.closed = true ∧ s.signal refuses type payload = s ∨
    s.closed = false ∧ (s.signal refuses type payload = s.told type payload ∨
      s.signal refuses type payload = (s.told type payload).close .signal) := by
  cases closed : s.closed with
  | true => exact .inl ⟨rfl,if_pos closed⟩
  | false =>
    right
    refine ⟨rfl,?_⟩
    rw [State.signal,if_neg (by simp [closed])]
    by_cases refused : refuses s.calls = true
    · exact .inr (if_pos refused)
    · exact .inl (if_neg refused)
theorem signal_sent (refuses : Nat → Bool) (s : State) (type : Text) (payload : List (Text × Value)) :
    (s.signal refuses type payload).descriptionSent = s.descriptionSent ∧
      (s.signal refuses type payload).sentCandidates = s.sentCandidates := by
  rcases signal_cases refuses s type payload with ⟨_,same⟩ | ⟨_,told | refused⟩
  · rw [same]
    exact ⟨rfl,rfl⟩
  · rw [told]
    exact ⟨rfl,rfl⟩
  · rw [refused]
    exact close_sent (s.told type payload) .signal

/-! ### What waits -/

/-- The candidates that are left of those that the operation under way adds. -/
def Running.left : Running → List Value
  | ⟨.pending _ left,_⟩ => left
  | _ => []
def Operation.adds : Operation → Option Value
  | .candidate value => some value
  | _ => none
def Operation.applies : Operation → Option (Kind × Text)
  | .description type sdp => some (type,sdp)
  | _ => none
/-- The candidates that are not passed yet, in the order in which they will be. -/
def State.waiting (s : State) : List Value :=
  (s.running.map Running.left).getD [] ++ s.pendingCandidates ++ s.operations.filterMap Operation.adds

def under (id : Text) (arrivals : List (Text × Value)) : List Value := (arrivals.filter (·.1 = id)).map (·.2)
theorem under_append (id : Text) (before after : List (Text × Value)) :
    under id (before ++ after) = under id before ++ under id after := by
  rw [under,List.filter_append,List.map_append]
  rfl
theorem under_same (id : Text) (candidate : Value) : under id [(id,candidate)] = [candidate] := by
  simp [under]
theorem under_other {id other : Text} (apart : other ≠ id) (candidate : Value) : under id [(other,candidate)] = [] := by
  simp [under,apart]

/-! ### The invariant -/

/-- The invariant of a peer, where `arrivals` are the candidates that it was signalled and
    `gathered` those that its native connection gave it. -/
structure Sound (config : Config) (arrivals : List (Text × Value)) (gathered : List Value) (s : State) : Prop where
  named : ∀ id, s.requestId = some id → validRequestId id = true
  -- The candidates of the peer, from the signal to the native connection.
  whole : s.closed = false → ∀ id, s.requestId = some id → under id arrivals = passed s.log ++ s.waiting
  part : ∀ id, s.requestId = some id → passed s.log <+: under id arrivals
  early : s.closed = false → s.requestId = none → ∀ id, validRequestId id = true →
    under id s.earlyCandidates = under id arrivals
  unnamed : s.requestId = none → passed s.log = [] ∧ s.waiting = []
  fresh : s.requestId = none → s.operations = [] ∧ s.running = none ∧ s.remoteDescription = none
  chooses : config.initiator = true → s.requestId ≠ none
  queued : ∀ candidate, .candidate candidate ∈ s.operations → s.remoteDescription ≠ none
  adding : ∀ type left settled, s.running = some ⟨.pending type left,settled⟩ → s.remoteDescription ≠ none
  set : ∀ type sdp, s.running = some ⟨.remote type sdp,some true⟩ → s.remoteDescription ≠ none
  pending : s.remoteDescription ≠ none → s.pendingCandidates = [] ∨
    ∃ type sdp, s.running = some ⟨.remote type sdp,some true⟩
  emptied : s.closed = true → s.pendingCandidates = []
  passing : passed s.log ≠ [] → s.remoteDescription ≠ none
  counted : (passed s.log).length + s.waiting.length + s.earlyCandidates.length ≤ s.candidates
  bounded : (passed s.log).length + s.waiting.length + s.earlyCandidates.length ≤ maxCandidates
  -- Descriptions.
  once : (applied s.log).length + (s.operations.filterMap Operation.applies).length ≤
    s.offerSeen.toNat + s.answerSeen.toNat
  sides : if config.initiator then s.offerSeen = false else s.answerSeen = false
  -- The candidates of the native connection, to the signals out.
  outWhole : s.closed = false → gathered = signalled s.log ++ s.localCandidates
  outPart : signalled s.log <+: gathered
  described : s.descriptionSent = true → s.localCandidates = [] ∧ ∃ a ∈ s.log, a.describes
  behind : Preceded Action.candidate Action.describes s.log
  setting : ∀ call settled, s.running = some ⟨call,settled⟩ → call = .localOffer ∨ call = .localAnswer →
    ∃ a ∈ s.log, a = .setLocalDescription
  setFirst : Preceded Action.describes (· = .setLocalDescription) s.log
  outCounted : (signalled s.log).length + s.localCandidates.length ≤ s.sentCandidates
  outBounded : (signalled s.log).length + s.localCandidates.length ≤ maxCandidates
  -- The end.
  ended : (endings s.log).length = s.closed.toNat
  ready : s.ready = if s.link then .link else if s.closed then .rejected else .waiting
  linked : s.link = true → s.remoteDescription ≠ none ∧ s.channel.isSome
  timed : s.closed = false → s.started = true → s.link = false → s.timer = true

section
variable {config : Config} {arrivals : List (Text × Value)} {gathered : List Value} {s : State}

/-- A journal that is longer, with the same candidates passed. -/
structure Longer (log log' : List Action) : Prop where
  passes : passed log' = passed log
  grows : ∀ a ∈ log, a ∈ log'
  behind : Preceded Action.candidate Action.describes log'
  setFirst : Preceded Action.describes (· = .setLocalDescription) log'

theorem Sound.longer (sound : Sound config arrivals gathered s) {log : List Action} {now : List Value} {calls : Nat}
    (longer : Longer s.log log) (ends : endings log = endings s.log)
    (once : (applied log).length + (s.operations.filterMap Operation.applies).length ≤
      s.offerSeen.toNat + s.answerSeen.toNat)
    (outWhole : s.closed = false → now = signalled log ++ s.localCandidates)
    (outPart : signalled log <+: now)
    (outCounted : (signalled log).length + s.localCandidates.length ≤ s.sentCandidates)
    (outBounded : (signalled log).length + s.localCandidates.length ≤ maxCandidates) :
    Sound config arrivals now { s with log,calls } where
  __ := sound
  whole := by rw [longer.passes]; exact sound.whole
  part := by rw [longer.passes]; exact sound.part
  unnamed := by rw [longer.passes]; exact sound.unnamed
  passing := by rw [longer.passes]; exact sound.passing
  counted := by rw [longer.passes]; exact sound.counted
  bounded := by rw [longer.passes]; exact sound.bounded
  once := once
  outWhole := outWhole
  outPart := outPart
  described sent := ⟨(sound.described sent).1,(sound.described sent).2.imp fun a held => ⟨longer.grows a held.1,held.2⟩⟩
  behind := longer.behind
  setting call settled running kind :=
    (sound.setting call settled running kind).imp fun a held => ⟨longer.grows a held.1,held.2⟩
  setFirst := longer.setFirst
  outCounted := outCounted
  outBounded := outBounded
  ended := by rw [ends]; exact sound.ended

theorem Sound.quietly (sound : Sound config arrivals gathered s) {more : List Action}
    (quiet : ∀ a ∈ more, a.quiet = true) :
    Longer s.log (s.log ++ more) ∧ applied (s.log ++ more) = applied s.log ∧
      signalled (s.log ++ more) = signalled s.log := by
  refine ⟨{ passes := ?_,grows := ?_,behind := ?_,setFirst := ?_ },?_,?_⟩
  · rw [passed_append,passed_quiet quiet,List.append_nil]
  · exact fun _ member => List.mem_append_left _ member
  · exact sound.behind.append (fun a member kind => absurd kind (unsent_quiet quiet a member).1)
  · exact sound.setFirst.append (fun a member kind => absurd kind (unsent_quiet quiet a member).2)
  · rw [applied_append,applied_quiet quiet,List.append_nil]
  · rw [signalled_append,signalled_quiet quiet,List.append_nil]
theorem Sound.quiet (sound : Sound config arrivals gathered s) {a : Action} (quiet : a.quiet = true)
    (silent : a.ends = none) :
    Sound config arrivals gathered { s with log := s.log ++ [a] } := by
  have each : ∀ b ∈ [a], b.quiet = true := by simpa using quiet
  obtain ⟨longer,applies,signals⟩ := sound.quietly each
  apply sound.longer longer
  · rw [endings_append]
    simp [endings,silent]
  · rw [applies]
    exact sound.once
  · rw [signals]
    exact sound.outWhole
  · rw [signals]
    exact sound.outPart
  · rw [signals]
    exact sound.outCounted
  · rw [signals]
    exact sound.outBounded

theorem waiting_close (s' : State) (running : s'.running = s.running) (pending : s'.pendingCandidates = [])
    (operations : s'.operations = s.operations) : s'.waiting.length ≤ s.waiting.length ∧
      (s.waiting = [] → s'.waiting = []) := by
  rw [State.waiting,State.waiting,running,pending,operations]
  constructor
  · simp only [List.length_append,List.length_nil]
    omega
  · intro none
    rw [List.append_eq_nil_iff,List.append_eq_nil_iff] at none ⊢
    exact ⟨⟨none.1.1,rfl⟩,none.2⟩

/-- A peer behind its end. -/
def State.shutting (s : State) (reason : Reason) : State := { s with
  closed := true,closeReason := some reason,timer := false
  pendingCandidates := [],earlyCandidates := [],localCandidates := []
  ready := s.ready.settle .rejected
  log := s.log ++ s.closing reason }
theorem close_closed (closed : s.closed = true) (reason : Reason) : s.close reason = s := if_pos closed
theorem close_open (opened : s.closed = false) (reason : Reason) : s.close reason = s.shutting reason := by
  rw [State.close,if_neg (by rw [opened]; simp)]
  rfl

theorem Sound.close (sound : Sound config arrivals gathered s) (reason : Reason) :
    Sound config arrivals gathered (s.close reason) := by
  by_cases closed : s.closed = true
  · rwa [close_closed closed]
  have opened : s.closed = false := by simpa using closed
  rw [close_open opened]
  obtain ⟨still,applies,signals⟩ := sound.quietly (closing_quiet s reason)
  have ends : (endings (s.log ++ s.closing reason)).length = 1 := by
    have before := sound.ended
    rw [opened] at before
    rw [endings_append,List.length_append,before,closing_endings]
    rfl
  have waits := waiting_close (s := s) (s.shutting reason) rfl rfl rfl
  exact {
    named := sound.named
    whole := by simp [State.shutting]
    part := by
      show ∀ id, _ → passed (s.log ++ s.closing reason) <+: _
      rw [still.passes]
      exact sound.part
    early := by simp [State.shutting]
    unnamed := by
      intro unnamed
      show passed (s.log ++ s.closing reason) = [] ∧ _
      rw [still.passes]
      exact ⟨(sound.unnamed unnamed).1,waits.2 (sound.unnamed unnamed).2⟩
    fresh := sound.fresh
    chooses := sound.chooses
    queued := sound.queued
    adding := sound.adding
    set := sound.set
    pending := fun _ => .inl rfl
    emptied := fun _ => rfl
    passing := by
      show passed (s.log ++ s.closing reason) ≠ [] → _
      rw [still.passes]
      exact sound.passing
    counted := by
      have before : _ ≤ (s.shutting reason).candidates := sound.counted
      have fewer := waits.1
      show (passed (s.log ++ s.closing reason)).length + _ + 0 ≤ _
      rw [still.passes]
      omega
    bounded := by
      have before := sound.bounded
      have fewer := waits.1
      show (passed (s.log ++ s.closing reason)).length + _ + 0 ≤ _
      rw [still.passes]
      omega
    once := by
      show (applied (s.log ++ s.closing reason)).length + _ ≤ _
      rw [applies]
      exact sound.once
    sides := sound.sides
    outWhole := by simp [State.shutting]
    outPart := by
      show signalled (s.log ++ s.closing reason) <+: _
      rw [signals]
      exact sound.outPart
    described := fun sent => ⟨rfl,(sound.described sent).2.imp fun a held => ⟨still.grows a held.1,held.2⟩⟩
    behind := still.behind
    setting := fun call settled running kind =>
      (sound.setting call settled running kind).imp fun a held => ⟨still.grows a held.1,held.2⟩
    setFirst := still.setFirst
    outCounted := by
      have before : _ ≤ (s.shutting reason).sentCandidates := sound.outCounted
      show (signalled (s.log ++ s.closing reason)).length + 0 ≤ _
      rw [signals]
      omega
    outBounded := by
      have before := sound.outBounded
      show (signalled (s.log ++ s.closing reason)).length + 0 ≤ _
      rw [signals]
      omega
    ended := ends
    ready := by
      have before := sound.ready
      rw [opened] at before
      cases linked : s.link <;> simp [State.shutting,Ready.settle,linked,before]
    linked := sound.linked
    timed := by simp [State.shutting] }

theorem Sound.growth (sound : Sound config arrivals gathered s) (closed : s.closed = true) (came : List (Text × Value))
    (more : List Value) :
    Sound config (arrivals ++ came) (gathered ++ more) s where
  __ := sound
  whole opened := by simp [closed] at opened
  part id chosen := by
    rw [under_append]
    exact (sound.part id chosen).trans (List.prefix_append _ _)
  early opened := by simp [closed] at opened
  outWhole opened := by simp [closed] at opened
  outPart := sound.outPart.trans (List.prefix_append _ _)
theorem Sound.unheard (sound : Sound config arrivals gathered s) {came : List (Text × Value)}
    (foreign : ∀ id, validRequestId id = true → s.requestId = some id ∨ s.requestId = none → under id came = []) :
    Sound config (arrivals ++ came) gathered s where
  __ := sound
  whole opened id chosen := by
    rw [under_append,foreign id (sound.named id chosen) (.inl chosen),List.append_nil]
    exact sound.whole opened id chosen
  part id chosen := by
    rw [under_append,foreign id (sound.named id chosen) (.inl chosen),List.append_nil]
    exact sound.part id chosen
  early opened unnamed id valid := by
    rw [under_append,foreign id valid (.inr unnamed),List.append_nil]
    exact sound.early opened unnamed id valid

/-! ### Signals out -/

theorem kind_apart (type : Kind) : type.text ≠ lit "candidate" := by
  cases type <;> decide

variable (refuses : Nat → Bool)
theorem Sound.signal {type : Text} {payload : List (Text × Value)} (opened : s.closed = false)
    (sound : Sound config arrivals gathered (s.told type payload)) :
    Sound config arrivals gathered (s.signal refuses type payload) := by
  rcases signal_cases refuses s type payload with ⟨closed,_⟩ | ⟨_,told | refused⟩
  · simp [opened] at closed
  · rwa [told]
  · rw [refused]
    exact sound.close .signal

theorem Sound.signalCandidate (sound : Sound config arrivals gathered s) (sent : s.descriptionSent = true)
    (counted : (signalled s.log).length < s.sentCandidates) (bounded : (signalled s.log).length < maxCandidates)
    (value : Value) :
    Sound config arrivals (gathered ++ [value]) (s.signalCandidate refuses value) := by
  rw [State.signalCandidate]
  cases closed : s.closed with
  | true =>
    rw [State.signal,if_pos closed]
    have grown := sound.growth closed [] [value]
    rwa [List.append_nil] at grown
  | false =>
    obtain ⟨none,description⟩ := sound.described sent
    have whole := sound.outWhole closed
    rw [none,List.append_nil] at whole
    have signals : signalled (s.log ++ [.sendSignal (lit "candidate") s.requestId [(lit "candidate",value)]]) =
        signalled s.log ++ [value] :=
      signalled_append _ _
    have longer : Longer s.log (s.log ++ [.sendSignal (lit "candidate") s.requestId [(lit "candidate",value)]]) := by
      constructor
      · exact (passed_append _ _).trans (List.append_nil _)
      · exact fun _ member => List.mem_append_left _ member
      · exact sound.behind.snoc (fun _ => description)
      · apply sound.setFirst.snoc
        rintro ⟨type,id,payload,same⟩
        exact absurd (Action.sendSignal.inj same).1.symm (kind_apart type)
    apply Sound.signal refuses closed
    apply sound.longer longer
    · exact (endings_append _ _).trans (List.append_nil _)
    · rw [applied_append]
      exact (List.append_nil (applied s.log)).symm ▸ sound.once
    · intro _
      rw [signals,none,List.append_nil,whole]
    · rw [signals,whole]
    · rw [signals,none,List.length_append]
      exact counted
    · rw [signals,none,List.length_append]
      exact bounded

theorem close_log (s : State) (reason : Reason) : ∃ more, (s.close reason).log = s.log ++ more ∧
    ∀ a ∈ more, a.quiet = true := by
  rw [State.close]
  split
  · exact ⟨[],(List.append_nil _).symm,by simp⟩
  · exact ⟨s.closing reason,rfl,closing_quiet s reason⟩
theorem close_closes (s : State) (reason : Reason) : (s.close reason).closed = true := by
  rw [State.close]
  split
  · assumption
  · rfl
theorem signalCandidate_signalled (s : State) (value : Value) :
    (signalled (s.signalCandidate refuses value).log).length ≤ (signalled s.log).length + 1 := by
  rw [State.signalCandidate]
  have one : signalled (s.told (lit "candidate") [(lit "candidate",value)]).log = signalled s.log ++ [value] :=
    signalled_append _ _
  rcases signal_cases refuses s (lit "candidate") [(lit "candidate",value)] with ⟨_,same⟩ | ⟨_,told | refused⟩
  · rw [same]
    exact Nat.le_succ _
  · rw [told,one,List.length_append]
    exact Nat.le_refl _
  · obtain ⟨more,log,quiet⟩ := close_log (s.told (lit "candidate") [(lit "candidate",value)]) .signal
    rw [refused,log,signalled_append,signalled_quiet quiet,List.append_nil,one,List.length_append]
    exact Nat.le_refl _

theorem Sound.signalCandidates (left : List Value) (sound : Sound config arrivals gathered s)
    (sent : s.descriptionSent = true) (counted : (signalled s.log).length + left.length ≤ s.sentCandidates)
    (bounded : (signalled s.log).length + left.length ≤ maxCandidates) :
    Sound config arrivals (gathered ++ left) (left.foldl (State.signalCandidate refuses) s) := by
  induction left generalizing s gathered with
  | nil => rwa [List.append_nil]
  | cons value left ih =>
    rw [List.length_cons] at counted bounded
    have next := sound.signalCandidate refuses sent (by omega) (by omega) value
    have fixed := signal_sent refuses s (lit "candidate") [(lit "candidate",value)]
    have more := signalCandidate_signalled refuses s value
    rw [List.foldl_cons,List.append_cons]
    apply ih next
    · exact fixed.1.trans sent
    · have same : (s.signalCandidate refuses value).sentCandidates = s.sentCandidates := fixed.2
      omega
    · omega

theorem signalCandidates_closed (closed : s.closed = true) (left : List Value) :
    left.foldl (State.signalCandidate refuses) s = s := by
  induction left with
  | nil => rfl
  | cons value left ih =>
    have same : s.signalCandidate refuses value = s := if_pos closed
    rw [List.foldl_cons,same,ih]
theorem Sound.behindDescription (sound : Sound config arrivals gathered s) (described : ∃ a ∈ s.log, a.describes) :
    Sound config arrivals gathered (s.localCandidates.foldl (State.signalCandidate refuses)
      { s with descriptionSent := true,localCandidates := [] }) := by
  have fewer := sound.outCounted
  have within := sound.outBounded
  have before : ∀ now, (s.closed = false → now = signalled s.log) → signalled s.log <+: now →
      Sound config arrivals now { s with descriptionSent := true,localCandidates := [] } := by
    intro now whole part
    exact { sound with
      outWhole := fun opened => (whole opened).trans (List.append_nil _).symm
      outPart := part
      described := fun _ => ⟨rfl,described⟩
      outCounted := Nat.le_trans (Nat.add_le_add_left (Nat.zero_le _) _) fewer
      outBounded := Nat.le_trans (Nat.add_le_add_left (Nat.zero_le _) _) within }
  by_cases closed : s.closed = true
  · have same := signalCandidates_closed refuses (s := { s with descriptionSent := true,localCandidates := [] }) closed
        s.localCandidates
    rw [same]
    exact before gathered (by simp [closed]) sound.outPart
  · rw [sound.outWhole (by simpa using closed)]
    exact (before _ (fun _ => rfl) (List.prefix_refl _)).signalCandidates refuses s.localCandidates rfl fewer within

theorem Sound.description (sound : Sound config arrivals gathered s) (opened : s.closed = false) (type : Kind)
    (set : ∃ a ∈ s.log, a = .setLocalDescription) : Sound config arrivals gathered (s.description refuses type) := by
  rw [State.description]
  cases s.localDescription with
  | none => exact sound.close .protocol
  | some sdp =>
    dsimp only
    by_cases long : maxSdpBytes < (utf8Bytes sdp).length
    · rw [if_pos long]
      exact sound.close .protocol
    rw [if_neg long]
    have signals : signalled (s.log ++ [.sendSignal type.text s.requestId [(lit "sdp",.string sdp)]]) =
        signalled s.log := by
      rw [signalled_append]
      simp [signalled,Action.signals,kind_apart]
    have longer : Longer s.log (s.log ++ [.sendSignal type.text s.requestId [(lit "sdp",.string sdp)]]) := by
      constructor
      · exact (passed_append _ _).trans (List.append_nil _)
      · exact fun _ member => List.mem_append_left _ member
      · apply sound.behind.snoc
        rintro ⟨id,payload,same⟩
        exact absurd (Action.sendSignal.inj same).1 (kind_apart type)
      · exact sound.setFirst.snoc (fun _ => set)
    have told : Sound config arrivals gathered (s.signal refuses type.text [(lit "sdp",.string sdp)]) := by
      apply Sound.signal refuses opened
      apply sound.longer longer
      · exact (endings_append _ _).trans (List.append_nil _)
      · rw [applied_append]
        exact (List.append_nil (applied s.log)).symm ▸ sound.once
      · rw [signals]
        exact sound.outWhole
      · rw [signals]
        exact sound.outPart
      · rw [signals]
        exact sound.outCounted
      · rw [signals]
        exact sound.outBounded
    have described : ∃ a ∈ (s.signal refuses type.text [(lit "sdp",.string sdp)]).log, a.describes := by
      refine ⟨.sendSignal type.text s.requestId [(lit "sdp",.string sdp)],?_,type,_,_,rfl⟩
      have last : Action.sendSignal type.text s.requestId [(lit "sdp",.string sdp)] ∈
          (s.told type.text [(lit "sdp",.string sdp)]).log :=
        List.mem_append_right _ (List.mem_singleton_self _)
      rcases signal_cases refuses s type.text [(lit "sdp",.string sdp)] with ⟨closed,_⟩ | ⟨_,taken | refused⟩
      · simp [opened] at closed
      · rwa [taken]
      · obtain ⟨more,log,_⟩ := close_log (s.told type.text [(lit "sdp",.string sdp)]) .signal
        rw [refused,log]
        exact List.mem_append_left _ last
    generalize s.signal refuses type.text [(lit "sdp",.string sdp)] = s' at told described
    exact told.behindDescription refuses described

theorem Sound.ice (sound : Sound config arrivals gathered s) (candidate : Option Value) :
    Sound config arrivals (gathered ++ candidate.toList) (s.ice refuses candidate) := by
  cases candidate with
  | none => exact (List.append_nil gathered).symm ▸ sound
  | some value =>
    rw [State.ice]
    by_cases closed : s.closed = true
    · rw [if_pos closed]
      have grown := sound.growth closed [] [value]
      rwa [List.append_nil] at grown
    rw [if_neg closed]
    have counted : Sound config arrivals gathered { s with sentCandidates := s.sentCandidates + 1 } :=
      { sound with outCounted := Nat.le_succ_of_le sound.outCounted }
    have ends : ∀ reason, Sound config arrivals (gathered ++ [value])
        (State.close { s with sentCandidates := s.sentCandidates + 1 } reason) := by
      intro reason
      have behind := (counted.close reason).growth (close_closes _ reason) [] [value]
      rwa [List.append_nil] at behind
    dsimp only [Option.toList]
    by_cases many : maxCandidates < s.sentCandidates + 1
    · rw [if_pos many]
      exact ends .protocol
    rw [if_neg many]
    by_cases long : maxCandidateBytes < (utf8Bytes (write value)).length
    · rw [if_pos long]
      exact ends .protocol
    rw [if_neg long]
    have fewer := sound.outCounted
    by_cases sent : s.descriptionSent = true
    · rw [if_pos sent]
      apply counted.signalCandidate refuses sent
      · show _ < s.sentCandidates + 1
        dsimp only
        omega
      · dsimp only
        omega
    · rw [if_neg sent]
      exact { counted with
        outWhole := by
          intro opened
          rw [sound.outWhole opened,List.append_assoc]
        outPart := sound.outPart.trans (List.prefix_append _ _)
        described := fun described => absurd described sent
        outCounted := by
          rw [List.length_append]
          dsimp only [List.length_singleton]
          omega
        outBounded := by
          rw [List.length_append]
          dsimp only [List.length_singleton]
          omega }

/-! ### The channel -/

theorem Sound.opened (sound : Sound config arrivals gathered s) : Sound config arrivals gathered s.opened := by
  rw [State.opened]
  by_cases waits : s.closed ∨ s.link ∨ s.channel.any (·.opened) = false ∨ s.remoteDescription = none
  · rwa [if_pos waits]
  rw [if_neg waits]
  simp only [not_or] at waits
  obtain ⟨opened,unlinked,channel,described⟩ := waits
  exact { sound with
    ready := by
      have before := sound.ready
      simp only [opened,unlinked] at before
      simp [before,Ready.settle]
    linked := by
      intro _
      refine ⟨described,?_⟩
      cases found : s.channel with
      | none => simp [found] at channel
      | some _ => rfl
    timed := by simp }
theorem Sound.takeChannel (sound : Sound config arrivals gathered s) (channel : Channel) :
    Sound config arrivals gathered (s.takeChannel config channel) := by
  rw [State.takeChannel]
  by_cases refused : s.closed ∨ s.channel.isSome ∨ realtime channel config.maxPacketLifeTimeMs = false
  · rw [if_pos refused]
    exact (sound.quiet rfl rfl).close .protocol
  · rw [if_neg refused]
    apply Sound.opened
    exact { sound with linked := fun linked => ⟨(sound.linked linked).1,rfl⟩ }

/-! ### Operations -/

def State.left (s : State) : List Value := (s.running.map Running.left).getD []

/-- The operation under way waits for another call, of no candidates. -/
theorem Sound.await (sound : Sound config arrivals gathered s) (running : Option Running)
    (bare : (running.map Running.left).getD [] = []) (spent : s.left = [])
    (fresh : ∀ type sdp, running ≠ some ⟨.remote type sdp,some true⟩)
    (free : s.remoteDescription ≠ none → s.pendingCandidates = [])
    (setting : ∀ call settled, running = some ⟨call,settled⟩ → call = .localOffer ∨ call = .localAnswer →
      ∃ a ∈ s.log, a = .setLocalDescription)
    (alone : ∀ type left settled, running ≠ some ⟨.pending type left,settled⟩)
    (named : s.requestId = none → running = none) :
    Sound config arrivals gathered { s with running } := by
  have waits : State.waiting { s with running } = s.waiting := by
    rw [State.left] at spent
    rw [State.waiting,State.waiting,spent,bare]
  exact { sound with
    whole := by rw [waits]; exact sound.whole
    unnamed := by rw [waits]; exact sound.unnamed
    fresh := fun unnamed => ⟨(sound.fresh unnamed).1,named unnamed,(sound.fresh unnamed).2.2⟩
    adding := fun type left settled same => absurd same (alone type left settled)
    set := fun type sdp same => absurd same (fresh type sdp)
    pending := fun described => .inl (free described)
    counted := by rw [waits]; exact sound.counted
    bounded := by rw [waits]; exact sound.bounded
    setting := setting }

/-- The first candidate that waits is passed to the native connection. -/
theorem Sound.pass (sound : Sound config arrivals gathered s) (opened : s.closed = false)
    (described : s.remoteDescription ≠ none) {candidate : Value} (rest : List Value)
    (first : s.waiting = candidate :: rest) (running : Option Running) (operations : List Operation)
    (rests : State.waiting { s with running,operations,pendingCandidates := [] } = rest)
    (same : operations.filterMap Operation.applies = s.operations.filterMap Operation.applies)
    (call : ∀ call settled, running = some ⟨call,settled⟩ → call ≠ .localOffer ∧ call ≠ .localAnswer) :
    Sound config arrivals gathered { s with
      running,operations,pendingCandidates := [],log := s.log ++ [.addIceCandidate candidate] } := by
  have passes : passed (s.log ++ [.addIceCandidate candidate]) = passed s.log ++ [candidate] := passed_append _ _
  have signals : signalled (s.log ++ [.addIceCandidate candidate]) = signalled s.log :=
    (signalled_append _ _).trans (List.append_nil _)
  have waits : State.waiting { s with
      running,operations,pendingCandidates := [],log := s.log ++ [.addIceCandidate candidate] } = rest := rests
  have named : s.requestId ≠ none := by
    intro unnamed
    rw [(sound.unnamed unnamed).2] at first
    cases first
  have length := congrArg List.length first
  rw [List.length_cons] at length
  have unsent : ¬ (Action.addIceCandidate candidate).candidate ∧ ¬ (Action.addIceCandidate candidate).describes := by
    constructor
    · rintro ⟨_,_,sends⟩
      cases sends
    · rintro ⟨_,_,_,sends⟩
      cases sends
  exact { sound with
    whole := by
      intro _ id chosen
      rw [waits,passes,sound.whole opened id chosen,first,List.append_assoc]
      rfl
    part := by
      intro id chosen
      rw [passes,sound.whole opened id chosen,first]
      exact ⟨rest,List.append_assoc _ _ _⟩
    unnamed := fun unnamed => absurd unnamed named
    fresh := fun unnamed => absurd unnamed named
    queued := fun _ _ => described
    adding := fun _ _ _ _ => described
    set := fun _ _ _ => described
    pending := fun _ => .inl rfl
    emptied := fun _ => rfl
    passing := fun _ => described
    counted := by
      have before := sound.counted
      rw [waits,passes,List.length_append]
      dsimp only [List.length_singleton]
      omega
    bounded := by
      have before := sound.bounded
      rw [waits,passes,List.length_append]
      dsimp only [List.length_singleton]
      omega
    once := by
      rw [applied_append,same]
      exact (List.append_nil (applied s.log)).symm ▸ sound.once
    outWhole := by rw [signals]; exact sound.outWhole
    outPart := by rw [signals]; exact sound.outPart
    described := fun sent =>
      ⟨(sound.described sent).1,(sound.described sent).2.imp fun a held => ⟨List.mem_append_left _ held.1,held.2⟩⟩
    behind := sound.behind.snoc (fun sends => absurd sends unsent.1)
    setting := fun kind settled under kinds => by
      obtain ⟨first,second⟩ := call kind settled under
      rcases kinds with rfl | rfl
      · exact absurd rfl first
      · exact absurd rfl second
    setFirst := sound.setFirst.snoc (fun sends => absurd sends unsent.2)
    outCounted := by rw [signals]; exact sound.outCounted
    outBounded := by rw [signals]; exact sound.outBounded
    ended := by
      rw [endings_append]
      exact (List.append_nil (endings s.log)).symm ▸ sound.ended }

theorem Sound.calling (sound : Sound config arrivals gathered s) {a : Action} {call : Call} (quiet : a.quiet = true)
    (silent : a.ends = none) (spent : s.left = []) (free : s.remoteDescription ≠ none → s.pendingCandidates = [])
    (bare : ∀ type left, call ≠ .pending type left)
    (setting : call = .localOffer ∨ call = .localAnswer → a = .setLocalDescription) (named : s.requestId ≠ none) :
    Sound config arrivals gathered (s.calling a call) := by
  have held := sound.quiet quiet silent
  apply held.await (some ⟨call,none⟩)
  · cases call with
    | pending type left => exact absurd rfl (bare type left)
    | _ => rfl
  · exact spent
  · rintro type sdp same
    cases same
  · exact free
  · rintro kind settled same kinds
    cases same
    exact ⟨a,List.mem_append_right _ (List.mem_singleton_self a),setting kinds⟩
  · rintro type left settled same
    cases same
    exact bare type left rfl
  · exact fun unnamed => absurd unnamed named

theorem Sound.adding' (sound : Sound config arrivals gathered s) (opened : s.closed = false)
    (described : s.remoteDescription ≠ none)
    (type : Kind) (left : List Value) (whole : s.left ++ s.pendingCandidates = left) :
    Sound config arrivals gathered (State.adding { s with pendingCandidates := [] } type left) := by
  cases left with
  | cons candidate left =>
    rw [State.adding]
    apply sound.pass opened described (left ++ s.operations.filterMap Operation.adds)
    · rw [State.left] at whole
      rw [State.waiting,whole]
      rfl
    · rw [State.waiting]
      simp [Running.left]
    · rfl
    · rintro kind settled same
      cases same
      constructor <;> simp
  | nil =>
    obtain ⟨spent,empty⟩ := List.append_eq_nil_iff.mp whole
    have same : ({ s with pendingCandidates := [] } : State) = s := by rw [← empty]
    rw [same]
    cases type with
    | offer =>
      rw [State.adding]
      exact sound.calling rfl rfl spent (fun _ => empty) (by simp) (by simp)
        (fun unnamed => described (sound.fresh unnamed).2.2)
    | answer =>
      rw [State.adding]
      apply Sound.opened
      exact sound.await none rfl spent (by simp) (fun _ => empty) (by simp) (by simp) (fun _ => rfl)

theorem Sound.stop (sound : Sound config arrivals gathered s) (closed : s.closed = true) :
    Sound config arrivals gathered { s with running := none } := by
  have waits : State.waiting { s with running := none } =
      s.pendingCandidates ++ s.operations.filterMap Operation.adds := rfl
  have whole : s.waiting = s.left ++ (s.pendingCandidates ++ s.operations.filterMap Operation.adds) :=
    List.append_assoc _ _ _
  have length := congrArg List.length whole
  rw [List.length_append] at length
  exact { sound with
    whole := by simp [closed]
    unnamed := by
      intro unnamed
      obtain ⟨passes,none⟩ := sound.unnamed unnamed
      rw [whole] at none
      exact ⟨passes,(List.append_eq_nil_iff.mp none).2⟩
    fresh := fun unnamed => ⟨(sound.fresh unnamed).1,rfl,(sound.fresh unnamed).2.2⟩
    adding := by simp
    set := by simp
    pending := fun _ => .inl (sound.emptied closed)
    counted := by
      have before := sound.counted
      rw [waits]
      dsimp only
      omega
    bounded := by
      have before := sound.bounded
      rw [waits]
      dsimp only
      omega
    setting := by simp }
theorem Sound.fail (sound : Sound config arrivals gathered s) :
    Sound config arrivals gathered (State.close { s with running := none } .signal) := by
  have same : State.close { s with running := none } .signal = { s.close .signal with running := none } := by
    rw [State.close,State.close]
    by_cases closed : s.closed = true
    · rw [if_pos closed,if_pos closed]
    · rw [if_neg closed,if_neg closed]
      rfl
  rw [same]
  exact (sound.close .signal).stop (close_closes s .signal)
theorem Sound.proceed (sound : Sound config arrivals gathered s) {call : Call}
    (under : s.running = some ⟨call,some true⟩) :
    Sound config arrivals gathered (s.proceed refuses call) := by
  have named : s.requestId ≠ none := by
    intro unnamed
    rw [(sound.fresh unnamed).2.1] at under
    cases under
  have spent : (∀ type left, call ≠ .pending type left) → s.left = [] := by
    intro alone
    rw [State.left,under]
    cases call with
    | pending type left => exact absurd rfl (alone type left)
    | _ => rfl
  have free : (∀ type sdp, call ≠ .remote type sdp) → s.remoteDescription ≠ none → s.pendingCandidates = [] := by
    intro apart described
    rcases sound.pending described with none | ⟨type,sdp,same⟩
    · exact none
    · rw [under] at same
      cases same
      exact absurd rfl (apart type sdp)
  have idle : (∀ type left, call ≠ .pending type left) → (∀ type sdp, call ≠ .remote type sdp) →
      Sound config arrivals gathered { s with running := none } :=
    fun alone apart => sound.await none rfl (spent alone) (by simp) (free apart) (by simp) (by simp) (fun _ => rfl)
  unfold State.proceed
  by_cases closed : s.closed = true
  · rw [if_pos closed]
    exact sound.stop closed
  have opened : s.closed = false := by simpa using closed
  rw [if_neg closed]
  cases call with
  | createOffer | createAnswer =>
    exact sound.calling rfl rfl (spent (by simp)) (free (by simp)) (by simp) (fun _ => rfl) named
  | localOffer =>
    exact (idle (by simp) (by simp)).description refuses opened .offer (sound.setting _ _ under (.inl rfl))
  | localAnswer =>
    exact ((idle (by simp) (by simp)).description refuses opened .answer (sound.setting _ _ under (.inr rfl))).opened
  | candidate => exact idle (by simp) (by simp)
  | remote type sdp =>
    apply sound.adding' opened (sound.set type sdp under)
    rw [spent (by simp)]
    rfl
  | pending type left =>
    have described := sound.adding type left _ under
    have none := free (by simp) described
    have held := sound.adding' opened described type left (by rw [State.left,under,none]; exact List.append_nil left)
    have same : ({ s with pendingCandidates := [] } : State) = s := by rw [← none]
    rwa [same] at held

theorem Sound.resume (sound : Sound config arrivals gathered s) :
    Sound config arrivals gathered (s.resume refuses) := by
  cases under : s.running with
  | none =>
    rw [State.resume,under]
    exact sound
  | some running =>
    obtain ⟨call,settled⟩ := running
    rw [State.resume,under]
    cases settled with
    | none => exact sound
    | some succeeded =>
      cases succeeded with
      | true => exact sound.proceed refuses under
      | false => exact sound.fail

theorem Sound.dequeue (sound : Sound config arrivals gathered s) {operation : Operation} {operations : List Operation}
    (queue : s.operations = operation :: operations) (light : operation.adds = none ∨ s.closed = true) :
    Sound config arrivals gathered { s with operations } := by
  have whole : s.waiting = (s.left ++ s.pendingCandidates) ++
      (operation.adds.toList ++ operations.filterMap Operation.adds) := by
    rw [State.waiting,queue,List.filterMap_cons]
    cases operation.adds <;> rfl
  have waits : State.waiting { s with operations } =
      (s.left ++ s.pendingCandidates) ++ operations.filterMap Operation.adds := rfl
  have length := congrArg List.length whole
  have fewer := congrArg List.length waits
  simp only [List.length_append] at length fewer
  exact { sound with
    whole := by
      intro opened id chosen
      rcases light with none | closed
      · rw [none] at whole
        rw [waits,sound.whole opened id chosen,whole]
        rfl
      · rw [opened] at closed
        cases closed
    unnamed := by
      intro unnamed
      obtain ⟨passes,none⟩ := sound.unnamed unnamed
      rw [whole] at none
      simp only [List.append_eq_nil_iff] at none
      exact ⟨passes,List.append_eq_nil_iff.mpr ⟨List.append_eq_nil_iff.mpr none.1,none.2.2⟩⟩
    fresh := by
      intro unnamed
      rw [(sound.fresh unnamed).1] at queue
      cases queue
    queued := fun candidate member => sound.queued candidate (by rw [queue]; exact List.mem_cons_of_mem _ member)
    counted := by
      have before := sound.counted
      dsimp only
      omega
    bounded := by
      have before := sound.bounded
      dsimp only
      omega
    once := by
      have before := sound.once
      rw [queue,List.filterMap_cons] at before
      cases kind : operation.applies with
      | none => simpa [kind] using before
      | some _ =>
        simp only [kind,List.length_cons] at before
        dsimp only
        omega }
theorem Sound.apply (sound : Sound config arrivals gathered s) (type : Kind) (sdp : Text) (spent : s.left = [])
    (free : s.remoteDescription ≠ none → s.pendingCandidates = [])
    (room : (applied s.log).length + 1 + (s.operations.filterMap Operation.applies).length ≤
      s.offerSeen.toNat + s.answerSeen.toNat)
    (named : s.requestId ≠ none) :
    Sound config arrivals gathered (s.calling (.setRemoteDescription type sdp) (.remote type sdp)) := by
  have signals : signalled (s.log ++ [.setRemoteDescription type sdp]) = signalled s.log :=
    (signalled_append _ _).trans (List.append_nil _)
  have longer : Longer s.log (s.log ++ [.setRemoteDescription type sdp]) := by
    constructor
    · exact (passed_append _ _).trans (List.append_nil _)
    · exact fun _ member => List.mem_append_left _ member
    · apply sound.behind.snoc
      rintro ⟨_,_,sends⟩
      cases sends
    · apply sound.setFirst.snoc
      rintro ⟨_,_,_,sends⟩
      cases sends
  have held : Sound config arrivals gathered { s with log := s.log ++ [.setRemoteDescription type sdp] } := by
    apply sound.longer longer
    · exact (endings_append _ _).trans (List.append_nil _)
    · rw [applied_append,List.length_append]
      exact room
    · rw [signals]
      exact sound.outWhole
    · rw [signals]
      exact sound.outPart
    · rw [signals]
      exact sound.outCounted
    · rw [signals]
      exact sound.outBounded
  exact held.await (some ⟨.remote type sdp,none⟩) rfl spent (by simp) free (by simp) (by simp)
    (fun unnamed => absurd unnamed named)

theorem Sound.next (sound : Sound config arrivals gathered s) : Sound config arrivals gathered s.next := by
  rw [State.next]
  split
  · rename_i operation operations idle queue
    have spent : s.left = [] := by
      rw [State.left,idle]
      rfl
    have free : s.remoteDescription ≠ none → s.pendingCandidates = [] := by
      intro described
      rcases sound.pending described with none | ⟨type,sdp,same⟩
      · exact none
      · rw [idle] at same
        cases same
    have named : s.requestId ≠ Option.none := by
      intro unnamed
      rw [(sound.fresh unnamed).1] at queue
      cases queue
    dsimp only
    by_cases closed : s.closed = true
    · rw [if_pos closed]
      exact sound.dequeue queue (.inr closed)
    rw [if_neg closed]
    cases operation with
    | offer => exact (sound.dequeue queue (.inl rfl)).calling rfl rfl spent free (by simp) (by simp) named
    | description type sdp =>
      have before := sound.once
      apply (sound.dequeue queue (.inl rfl)).apply type sdp spent free
      · rw [queue,List.filterMap_cons] at before
        simp only [Operation.applies,List.length_cons] at before
        dsimp only
        omega
      · exact named
    | candidate value =>
      have described := sound.queued value (by rw [queue]; exact List.mem_cons_self)
      have none := free described
      have same : ({ s with pendingCandidates := [] } : State) = s := by rw [← none]
      have first : s.waiting = value :: operations.filterMap Operation.adds := by
        rw [State.waiting,idle,none,queue]
        rfl
      have held := sound.pass (by simpa using closed) described _ first (some ⟨.candidate,Option.none⟩) operations
        rfl (by rw [queue]; rfl) (by simp)
      rw [← none] at held
      exact held
  · exact sound
theorem Sound.settle (sound : Sound config arrivals gathered s) {call : Call} (under : s.running = some ⟨call,none⟩)
    (succeeded : Bool) (apart : succeeded = true → ∀ type sdp, call ≠ .remote type sdp) :
    Sound config arrivals gathered { s with running := some ⟨call,some succeeded⟩ } := by
  have waits : State.waiting { s with running := some ⟨call,some succeeded⟩ } = s.waiting := by
    rw [State.waiting,State.waiting,under]
    cases call <;> rfl
  exact { sound with
    whole := by rw [waits]; exact sound.whole
    unnamed := by rw [waits]; exact sound.unnamed
    fresh := by
      intro unnamed
      rw [(sound.fresh unnamed).2.1] at under
      cases under
    adding := by
      rintro type left settled same
      cases same
      exact sound.adding type left _ under
    set := by
      rintro type sdp same
      cases same
      exact absurd rfl (apart rfl type sdp)
    pending := by
      intro described
      rcases sound.pending described with none | ⟨type,sdp,same⟩
      · exact .inl none
      · rw [under] at same
        cases same
    counted := by rw [waits]; exact sound.counted
    bounded := by rw [waits]; exact sound.bounded
    setting := by
      rintro kind settled same kinds
      cases same
      exact sound.setting call _ under kinds }
theorem Sound.failed (sound : Sound config arrivals gathered s) : Sound config arrivals gathered s.failed := by
  rw [State.failed]
  split
  · rename_i call under
    exact sound.settle under false (by simp)
  · exact sound
theorem Sound.fulfilled (sound : Sound config arrivals gathered s) (sdp : Option Text) :
    Sound config arrivals gathered (s.fulfilled sdp) := by
  rw [State.fulfilled]
  split
  · rename_i call under
    cases call with
    | remote type sdp =>
      have waits : State.waiting { s with running := some ⟨.remote type sdp,some true⟩ } = s.waiting := by
        rw [State.waiting,State.waiting,under]
        rfl
      exact { sound with
        whole := fun opened id chosen => (sound.whole opened id chosen).trans (congrArg _ waits.symm)
        unnamed := fun unnamed => ⟨(sound.unnamed unnamed).1,waits.trans (sound.unnamed unnamed).2⟩
        fresh := by
          intro unnamed
          rw [(sound.fresh unnamed).2.1] at under
          cases under
        queued := by simp
        adding := by simp
        set := by simp
        pending := fun _ => .inr ⟨type,sdp,rfl⟩
        passing := by simp
        counted := by
          have before := sound.counted
          rwa [← waits] at before
        bounded := by
          have before := sound.bounded
          rwa [← waits] at before
        setting := by
          rintro kind settled same kinds
          cases same
          rcases kinds with kind | kind <;> cases kind
        linked := fun linked => ⟨by simp,(sound.linked linked).2⟩ }
    | localOffer | localAnswer =>
      have held := sound.settle under true (by simp)
      exact { held with named := held.named }
    | createOffer | createAnswer | pending _ _ | candidate => exact sound.settle under true (by simp)
  · exact sound

/-! ### Signals in -/

theorem Sound.candidate (sound : Sound config arrivals gathered s) (id : Text) (payload : Value)
    (keep : State → Value → State)
    (kept : ∀ candidate, candidateOf payload = some candidate → s.candidates < maxCandidates →
      Sound config (arrivals ++ [(id,candidate)]) gathered (keep { s with candidates := s.candidates + 1 } candidate)) :
    Sound config (arrivals ++ ((candidateOf payload).map (id,·)).toList) gathered (s.candidate payload keep) := by
  have ends : Sound config (arrivals ++ ((candidateOf payload).map (id,·)).toList) gathered
      (State.close { s with candidates := s.candidates + 1 } .protocol) := by
    have counted : Sound config arrivals gathered { s with candidates := s.candidates + 1 } :=
      { sound with counted := Nat.le_succ_of_le sound.counted }
    have behind :=
      (counted.close .protocol).growth (close_closes _ .protocol) ((candidateOf payload).map (id,·)).toList []
    rwa [List.append_nil] at behind
  rw [State.candidate]
  dsimp only
  split
  · exact ends
  · rename_i within
    cases found : candidateOf payload with
    | none =>
      rw [found] at ends
      exact ends
    | some candidate =>
      rw [found] at ends
      cases valid : validCandidate candidate with
      | false =>
        rw [Option.filter_some_neg (by simp [valid])]
        exact ends
      | true =>
        rw [Option.filter_some_pos valid]
        exact kept candidate found (by omega)

/-- A candidate of the chosen request id waits behind the others. -/
theorem Sound.arrive (sound : Sound config arrivals gathered s) (opened : s.closed = false) {id : Text}
    (chosen : s.requestId = some id)
    (room : s.candidates < maxCandidates) (candidate : Value) (pendings : List Value) (operations : List Operation)
    (waits : State.waiting { s with pendingCandidates := pendings,operations } = s.waiting ++ [candidate])
    (queued : ∀ value, .candidate value ∈ operations → s.remoteDescription ≠ none)
    (pending : s.remoteDescription ≠ none → pendings = s.pendingCandidates)
    (same : operations.filterMap Operation.applies = s.operations.filterMap Operation.applies) :
    Sound config (arrivals ++ [(id,candidate)]) gathered { s with
      candidates := s.candidates + 1,pendingCandidates := pendings,operations } := by
  have longer : State.waiting { s with candidates := s.candidates + 1,pendingCandidates := pendings,operations } =
      s.waiting ++ [candidate] := waits
  have before := sound.counted
  exact { sound with
    whole := by
      intro _ other taken
      cases chosen.symm.trans taken
      rw [under_append,under_same,longer,sound.whole opened id chosen,List.append_assoc]
    part := by
      intro other taken
      rw [under_append]
      exact (sound.part other taken).trans (List.prefix_append _ _)
    early := by
      intro _ unnamed
      rw [chosen] at unnamed
      cases unnamed
    unnamed := by
      intro unnamed
      rw [chosen] at unnamed
      cases unnamed
    fresh := by
      intro unnamed
      rw [chosen] at unnamed
      cases unnamed
    queued := queued
    pending := by
      intro described
      dsimp only
      rw [pending described]
      exact sound.pending described
    emptied := by simp [opened]
    counted := by
      rw [longer,List.length_append]
      dsimp only [List.length_singleton]
      omega
    bounded := by
      rw [longer,List.length_append]
      dsimp only [List.length_singleton]
      omega
    once := by rw [same]; exact sound.once }
theorem Sound.keep (sound : Sound config arrivals gathered s) (opened : s.closed = false) {id : Text}
    (chosen : s.requestId = some id) (room : s.candidates < maxCandidates) (candidate : Value) :
    Sound config (arrivals ++ [(id,candidate)]) gathered
      (State.keep { s with candidates := s.candidates + 1 } candidate) := by
  rw [State.keep]
  by_cases undescribed : s.remoteDescription = none
  · rw [if_pos undescribed]
    -- No candidate is queued yet, so that the pending ones come last.
    have bare : s.operations.filterMap Operation.adds = [] := by
      apply List.filterMap_eq_nil_iff.mpr
      rintro operation member
      cases operation with
      | candidate value => exact absurd undescribed (sound.queued value member)
      | offer | description _ _ => rfl
    apply sound.arrive opened chosen room candidate (s.pendingCandidates ++ [candidate]) s.operations
    · rw [State.waiting,State.waiting,bare,List.append_nil,List.append_nil,List.append_assoc]
    · exact sound.queued
    · exact fun described => absurd undescribed described
    · rfl
  · rw [if_neg undescribed,State.serial]
    apply sound.arrive opened chosen room candidate s.pendingCandidates
      (s.operations ++ [Operation.candidate candidate])
    · rw [State.waiting,State.waiting,List.filterMap_append,← List.append_assoc]
      rfl
    · exact fun _ _ => undescribed
    · exact fun _ => rfl
    · rw [List.filterMap_append]
      exact List.append_nil _
theorem Sound.keepEarly (sound : Sound config arrivals gathered s) (opened : s.closed = false)
    (unnamed : s.requestId = none) (id : Text) (room : s.candidates < maxCandidates) (candidate : Value) :
    Sound config (arrivals ++ [(id,candidate)]) gathered
      (State.keepEarly id { s with candidates := s.candidates + 1 } candidate) := by
  rw [State.keepEarly]
  have before := sound.counted
  have waits : State.waiting { s with
    candidates := s.candidates + 1,earlyCandidates := s.earlyCandidates ++ [(id,candidate)] } = s.waiting := rfl
  exact { sound with
    whole := by
      intro _ other taken
      rw [unnamed] at taken
      cases taken
    part := by
      intro other taken
      rw [unnamed] at taken
      cases taken
    early := by
      intro _ _ other valid
      rw [under_append,under_append,sound.early opened unnamed other valid]
    counted := by
      rw [waits,List.length_append]
      dsimp only [List.length_singleton]
      omega
    bounded := by
      rw [waits,List.length_append]
      dsimp only [List.length_singleton]
      omega }
theorem Sound.choose (sound : Sound config arrivals gathered s) (opened : s.closed = false)
    (unnamed : s.requestId = none) {id : Text}
    (valid : validRequestId id = true) : Sound config arrivals gathered (s.choose id) := by
  obtain ⟨passes,waits⟩ := sound.unnamed unnamed
  obtain ⟨operations,idle,undescribed⟩ := sound.fresh unnamed
  have pendings : s.pendingCandidates = [] := by
    rw [State.waiting,List.append_eq_nil_iff,List.append_eq_nil_iff] at waits
    exact waits.1.2
  have longer : (s.choose id).waiting = under id s.earlyCandidates := by
    rw [State.waiting,State.choose,idle,pendings,operations]
    exact List.append_nil _
  have fewer : (under id s.earlyCandidates).length ≤ s.earlyCandidates.length := by
    rw [under,List.length_map]
    exact List.length_filter_le _ _
  have counted := sound.counted
  have bounded := sound.bounded
  rw [passes] at counted bounded
  exact { sound with
    named := by
      rintro other taken
      cases taken
      exact valid
    whole := by
      rintro _ other taken
      cases taken
      rw [longer,State.choose,passes,sound.early opened unnamed id valid]
      rfl
    part := by
      rintro other taken
      cases taken
      rw [State.choose,passes]
      exact List.nil_prefix
    early := by
      rintro _ named
      cases named
    unnamed := by
      rintro named
      cases named
    fresh := by
      rintro named
      cases named
    chooses := fun _ named => by cases named
    pending := fun described => absurd undescribed described
    emptied := fun closed => by
      rw [State.choose,opened] at closed
      cases closed
    counted := by
      show (passed s.log).length + (s.choose id).waiting.length + 0 ≤ s.candidates
      rw [longer,passes]
      dsimp only [List.length_nil] at counted ⊢
      omega
    bounded := by
      show (passed s.log).length + (s.choose id).waiting.length + 0 ≤ maxCandidates
      rw [longer,passes]
      dsimp only [List.length_nil] at bounded ⊢
      omega }
/-- A description waits for its turn. -/
theorem Sound.enqueue (sound : Sound config arrivals gathered s) (named : s.requestId ≠ none) (operation : Operation)
    (adds : operation.adds = none) (offered answered : Bool)
    (once : (applied s.log).length + ((s.operations ++ [operation]).filterMap Operation.applies).length ≤
      offered.toNat + answered.toNat)
    (sides : if config.initiator then offered = false else answered = false) :
    Sound config arrivals gathered { s with
      offerSeen := offered,answerSeen := answered,operations := s.operations ++ [operation] } := by
  have waits : State.waiting { s with
      offerSeen := offered,answerSeen := answered,operations := s.operations ++ [operation] } = s.waiting := by
    rw [State.waiting,State.waiting,List.filterMap_append]
    simp [adds]
  exact { sound with
    whole := by rw [waits]; exact sound.whole
    unnamed := fun unnamed => absurd unnamed named
    fresh := fun unnamed => absurd unnamed named
    queued := by
      intro value member
      rcases List.mem_append.mp member with old | last
      · exact sound.queued value old
      · rw [← List.mem_singleton.mp last] at adds
        cases adds
    counted := by rw [waits]; exact sound.counted
    bounded := by rw [waits]; exact sound.bounded
    once := once
    sides := sides }
theorem Sound.accept (sound : Sound config arrivals gathered s) (named : s.requestId ≠ none) {type : Kind}
    (new : s.seen config type = false) (sdp : Text) : Sound config arrivals gathered (s.accept type sdp) := by
  have once := sound.once
  have sides := sound.sides
  have longer : ((s.operations ++ [Operation.description type sdp]).filterMap Operation.applies).length =
      (s.operations.filterMap Operation.applies).length + 1 := by
    rw [List.filterMap_append,List.length_append]
    rfl
  cases type with
  | offer =>
    simp only [State.seen,Bool.or_eq_false_iff] at new
    rw [new.1,if_neg (by simp)] at sides
    rw [new.2,sides] at once
    apply sound.enqueue named _ rfl
    · rw [longer,sides]
      simp only [Bool.toNat_false,Bool.toNat_true] at once ⊢
      omega
    · rw [new.1,if_neg (by simp)]
      exact sides
  | answer =>
    simp only [State.seen,Bool.or_eq_false_iff,Bool.not_eq_false'] at new
    rw [new.1,if_pos rfl] at sides
    rw [new.2,sides] at once
    apply sound.enqueue named _ rfl
    · rw [longer,sides]
      simp only [Bool.toNat_false,Bool.toNat_true] at once ⊢
      omega
    · rw [new.1,if_pos rfl]
      exact sides

variable (config) in
/-- The candidate that an event brings from the peer, with its request id. -/
def arrival : Event → Option (Text × Value)
  | .signal signal =>
    if signal.sender = config.peerPubkey ∧ signal.transport = realtimeTransport ∧ signal.type = lit "candidate" then
      (candidateOf signal.payload).map (signal.requestId,·)
    else none
  | _ => none
theorem arrival_other {signal : Signal} {id : Text} (apart : signal.requestId ≠ id) :
    under id (arrival config (.signal signal)).toList = [] := by
  rw [arrival]
  split
  · cases candidateOf signal.payload with
    | none => rfl
    | some candidate => exact under_other apart candidate
  · rfl

theorem Sound.hear (sound : Sound config arrivals gathered s) (opened : s.closed = false) (named : s.requestId ≠ none)
    {signal : Signal} (own : signal.sender = config.peerPubkey ∧ signal.transport = realtimeTransport) :
    Sound config (arrivals ++ (arrival config (.signal signal)).toList) gathered (s.hear config signal) := by
  rw [State.hear]
  split
  · rename_i foreign
    apply sound.unheard
    rintro id _ (chosen | unnamed)
    · rcases foreign with other | odd
      · apply arrival_other
        rintro rfl
        exact other chosen.symm
      · have bare : candidateOf signal.payload = none := by
          cases payload : signal.payload with
          | object fields =>
            rw [payload] at odd
            cases odd
          | _ => rfl
        rw [arrival,bare]
        split <;> rfl
    · exact absurd unnamed named
  · rename_i same
    rw [not_or,not_not] at same
    by_cases kind : signal.type = lit "candidate"
    · rw [if_pos kind,arrival,if_pos ⟨own.1,own.2,kind⟩]
      exact sound.candidate _ _ _ (fun candidate _ room => sound.keep opened same.1.symm room candidate)
    · have none : arrival config (.signal signal) = none := by
        rw [arrival,if_neg (fun all => kind all.2.2)]
      rw [if_neg kind,none]
      simp only [Option.toList_none,List.append_nil]
      cases kindOf signal.type with
      | none => exact sound
      | some type =>
        dsimp only
        by_cases seen : s.seen config type = true
        · rw [if_pos seen]
          exact sound
        rw [if_neg seen]
        cases sdpOf signal.payload with
        | none => exact sound.close .protocol
        | some sdp =>
          dsimp only
          by_cases long : maxSdpBytes < (utf8Bytes sdp).length
          · rw [if_pos long]
            exact sound.close .protocol
          · rw [if_neg long]
            exact sound.accept named (by simpa using seen) sdp
theorem Sound.receive (sound : Sound config arrivals gathered s) (signal : Signal) :
    Sound config (arrivals ++ (arrival config (.signal signal)).toList) gathered (s.receive config signal) := by
  rw [State.receive]
  by_cases closed : s.closed = true
  · rw [if_pos (.inl closed)]
    have grown := sound.growth closed (arrival config (.signal signal)).toList []
    rwa [List.append_nil] at grown
  have opened : s.closed = false := by simpa using closed
  by_cases own : signal.sender = config.peerPubkey ∧ signal.transport = realtimeTransport
  swap
  · have foreign : signal.sender ≠ config.peerPubkey ∨ signal.transport ≠ realtimeTransport := not_and_or.mp own
    have none : arrival config (.signal signal) = none := by
      rw [arrival,if_neg (fun all => own ⟨all.1,all.2.1⟩)]
    rw [if_pos (.inr (foreign.imp_right .inl)),none,Option.toList_none,List.append_nil]
    exact sound
  cases valid : validRequestId signal.requestId with
  | false =>
    rw [if_pos (.inr (.inr (.inr rfl)))]
    apply sound.unheard
    rintro id proper _
    apply arrival_other
    rintro rfl
    rw [valid] at proper
    cases proper
  | true =>
    rw [if_neg (by simp [closed,own.1,own.2])]
    by_cases unnamed : s.requestId = none
    · rw [if_pos unnamed]
      by_cases kind : signal.type = lit "candidate"
      · rw [if_pos kind,arrival,if_pos ⟨own.1,own.2,kind⟩]
        exact sound.candidate _ _ _ (fun candidate _ room =>
          sound.keepEarly opened unnamed signal.requestId room candidate)
      · rw [if_neg kind]
        by_cases refused : config.initiator ∨ signal.type ≠ lit "offer"
        · have none : arrival config (.signal signal) = none := by
            rw [arrival,if_neg (fun all => kind all.2.2)]
          rw [if_pos refused,none,Option.toList_none,List.append_nil]
          exact sound
        · rw [if_neg refused]
          exact (sound.choose opened unnamed valid).hear opened (by simp [State.choose]) own
    · rw [if_neg unnamed]
      exact sound.hear opened unnamed own
end
end RelaySwarm.RealtimePeer
