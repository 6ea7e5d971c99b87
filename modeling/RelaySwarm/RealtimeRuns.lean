import RelaySwarm.RealtimeSignals

/-!
Runs of a real-time peer. What a step leaves as it is, step by step, and from it and from
the invariant what a whole run keeps: each signal is used once.
-/
namespace RelaySwarm.RealtimePeer
open JsonText ObjectTransfer

/-! ### What a step leaves as it is -/

/-- A step that leaves the native connection as it is, and a closed peer without another
    action. -/
structure Still (s s' : State) : Prop where
  started : s'.started = s.started
  remoteDescription : s'.remoteDescription = s.remoteDescription
  channel : s'.channel = s.channel
  link : s'.link = s.link
  closed : s.closed = true → s'.closed = true ∧ s'.log = s.log
  named : ∀ id, s.requestId = some id → s'.requestId = some id
theorem Still.refl (s : State) : Still s s := ⟨rfl,rfl,rfl,rfl,fun closed => ⟨closed,rfl⟩,fun _ named => named⟩
theorem Still.trans {s s' s'' : State} (first : Still s s') (second : Still s' s'') : Still s s'' where
  started := second.started.trans first.started
  remoteDescription := second.remoteDescription.trans first.remoteDescription
  channel := second.channel.trans first.channel
  link := second.link.trans first.link
  closed closed := by
    obtain ⟨closed',log⟩ := first.closed closed
    obtain ⟨closed'',log'⟩ := second.closed closed'
    exact ⟨closed'',log'.trans log⟩
  named id named := second.named id (first.named id named)
theorem Still.act {s s' : State} (opened : s.closed = false) (started : s'.started = s.started)
    (remoteDescription : s'.remoteDescription = s.remoteDescription) (channel : s'.channel = s.channel)
    (link : s'.link = s.link)
    (requestId : s'.requestId = s.requestId) : Still s s' :=
  ⟨started,remoteDescription,channel,link,fun closed => absurd (opened.symm.trans closed) (by simp),
    fun _ named => requestId.trans named⟩

theorem close_still (s : State) (reason : Reason) : Still s (s.close reason) := by
  rw [State.close]
  by_cases closed : s.closed = true
  · rw [if_pos closed]
    exact Still.refl s
  · rw [if_neg closed]
    exact .act (by simpa using closed) rfl rfl rfl rfl rfl
theorem signal_still (refuses : Nat → Bool) (s : State) (type : Text) (payload : List (Text × Value)) :
    Still s (s.signal refuses type payload) := by
  rcases signal_cases refuses s type payload with ⟨_,same⟩ | ⟨opened,told | refused⟩
  · rw [same]
    exact Still.refl s
  · rw [told]
    exact .act opened rfl rfl rfl rfl rfl
  · rw [refused]
    have told : Still s (s.told type payload) := .act opened rfl rfl rfl rfl rfl
    exact told.trans (close_still _ .signal)

section
variable (config : Config) (refuses : Nat → Bool) {s : State}

theorem signalCandidates_still (left : List Value) (s : State) :
    Still s (left.foldl (State.signalCandidate refuses) s) := by
  induction left generalizing s with
  | nil => exact Still.refl s
  | cons value left ih => exact (signal_still refuses s (lit "candidate") [(lit "candidate",value)]).trans (ih _)
theorem description_still (s : State) (type : Kind) : Still s (s.description refuses type) := by
  rw [State.description]
  cases s.localDescription with
  | none => exact close_still s .protocol
  | some sdp =>
    dsimp only
    by_cases long : maxSdpBytes < (utf8Bytes sdp).length
    · rw [if_pos long]
      exact close_still s .protocol
    rw [if_neg long]
    have first := signal_still refuses s type.text [(lit "sdp",.string sdp)]
    generalize s.signal refuses type.text [(lit "sdp",.string sdp)] = s' at first
    have second : Still s { s' with descriptionSent := true,localCandidates := [] } :=
      ⟨first.1,first.2,first.3,first.4,first.5,first.6⟩
    exact second.trans (signalCandidates_still refuses _ _)
theorem ice_still (s : State) (candidate : Option Value) : Still s (s.ice refuses candidate) := by
  cases candidate with
  | none => exact Still.refl s
  | some value =>
    rw [State.ice]
    by_cases closed : s.closed = true
    · rw [if_pos closed]
      exact Still.refl s
    rw [if_neg closed]
    have counted : Still s { s with sentCandidates := s.sentCandidates + 1 } :=
      ⟨rfl,rfl,rfl,rfl,fun closed => ⟨closed,rfl⟩,fun _ named => named⟩
    dsimp only
    split
    · exact counted.trans (close_still _ _)
    split
    · exact counted.trans (close_still _ _)
    split
    · exact counted.trans (signal_still refuses _ _ _)
    · exact ⟨rfl,rfl,rfl,rfl,fun closed => ⟨closed,rfl⟩,fun _ named => named⟩
theorem candidate_still (s : State) (payload : Value) {keep : State → Value → State}
    (kept : ∀ s value, Still s (keep s value)) :
    Still s (s.candidate payload keep) := by
  have counted : Still s { s with candidates := s.candidates + 1 } :=
    ⟨rfl,rfl,rfl,rfl,fun closed => ⟨closed,rfl⟩,fun _ named => named⟩
  rw [State.candidate]
  dsimp only
  split
  · exact counted.trans (close_still _ _)
  split
  · exact counted.trans (close_still _ _)
  · exact counted.trans (kept _ _)
theorem hear_still (s : State) (signal : Signal) : Still s (s.hear config signal) := by
  rw [State.hear]
  split
  · exact Still.refl s
  split
  · apply candidate_still
    intro s value
    rw [State.keep]
    split <;> exact ⟨rfl,rfl,rfl,rfl,fun closed => ⟨closed,rfl⟩,fun _ named => named⟩
  split
  · exact Still.refl s
  split
  · exact Still.refl s
  split
  · exact close_still s .protocol
  split
  · exact close_still s .protocol
  · unfold State.accept
    split <;> exact ⟨rfl,rfl,rfl,rfl,fun closed => ⟨closed,rfl⟩,fun _ named => named⟩
theorem receive_still (s : State) (signal : Signal) : Still s (s.receive config signal) := by
  rw [State.receive]
  split
  · exact Still.refl s
  split
  · rename_i unnamed
    split
    · exact candidate_still s signal.payload (fun _ _ =>
        ⟨rfl,rfl,rfl,rfl,fun closed => ⟨closed,rfl⟩,fun _ named => named⟩)
    split
    · exact Still.refl s
    · have chosen : Still s (s.choose signal.requestId) :=
        ⟨rfl,rfl,rfl,rfl,fun closed => ⟨closed,rfl⟩,fun id named => by rw [unnamed] at named; cases named⟩
      exact chosen.trans (hear_still config _ signal)
  · exact hear_still config s signal

/-! ### One step -/

/-- What a step may do to the link and to the remote description: a link is there for good,
    and comes with the remote description and an open channel. -/
structure Turn (s s' : State) : Prop where
  closed : s.closed = true → s'.closed = true ∧ s'.log = s.log ∧ s'.link = s.link
  link : s.link = true → s'.link = true
  linked : s'.link = true → s.link = true ∨ s'.remoteDescription ≠ none ∧ ∃ channel, s'.channel = some channel ∧
    channel.opened = true
  described : s'.remoteDescription = s.remoteDescription ∨ s'.log = s.log
  named : ∀ id, s.requestId = some id → s'.requestId = some id
theorem Still.turn {s s' : State} (still : Still s s') : Turn s s' where
  closed closed := ⟨(still.closed closed).1,(still.closed closed).2,still.link⟩
  link linked := still.link.trans linked
  linked linked := .inl (still.link.symm.trans linked)
  described := .inl still.remoteDescription
  named := still.named
theorem Turn.act {s s' : State} (opened : s.closed = false) (link : s.link = true → s'.link = true)
    (linked : s'.link = true → s.link = true ∨ s'.remoteDescription ≠ none ∧ ∃ channel, s'.channel = some channel ∧
      channel.opened = true)
    (described : s'.remoteDescription = s.remoteDescription) (requestId : s'.requestId = s.requestId) : Turn s s' :=
  ⟨fun closed => absurd (opened.symm.trans closed) (by simp),link,linked,.inl described,
    fun _ named => requestId.trans named⟩
theorem opened_cases (s : State) : s.opened = s ∨ s.closed = false ∧ s.remoteDescription ≠ none ∧
    (∃ channel, s.channel = some channel ∧ channel.opened = true) ∧
      s.opened = { s with link := true,timer := false,ready := s.ready.settle .link } := by
  rw [State.opened]
  split
  · exact .inl rfl
  · rename_i waits
    simp only [not_or] at waits
    obtain ⟨opened,_,channel,described⟩ := waits
    refine .inr ⟨by simpa using opened,described,?_,rfl⟩
    cases found : s.channel with
    | none => simp [found] at channel
    | some channel' => exact ⟨channel',rfl,by simpa [found] using channel⟩
theorem Still.opened {s s' : State} (still : Still s s') : Turn s s'.opened ∧ s'.opened.started = s.started := by
  rcases opened_cases s' with same | ⟨opened,described,channel,same⟩
  · rw [same]
    exact ⟨still.turn,still.started⟩
  · rw [same]
    refine ⟨⟨?_,fun _ => rfl,fun _ => .inr ⟨described,channel⟩,.inl still.remoteDescription,still.named⟩,still.started⟩
    intro closed
    rw [(still.closed closed).1] at opened
    cases opened

theorem calling_turn (opened : s.closed = false) (a : Action) (call : Call) : Still s (s.calling a call) :=
  .act opened rfl rfl rfl rfl rfl
theorem adding_turn (opened : s.closed = false) (type : Kind) (left : List Value) :
    Turn s (s.adding type left) ∧ (s.adding type left).started = s.started := by
  cases left with
  | cons candidate left => exact ⟨(calling_turn opened _ _).turn,rfl⟩
  | nil =>
    cases type with
    | offer => exact ⟨(calling_turn opened _ _).turn,rfl⟩
    | answer => exact Still.opened (.act opened rfl rfl rfl rfl rfl)
theorem proceed_turn (s : State) (call : Call) : Turn s (s.proceed refuses call) ∧
    (s.proceed refuses call).started = s.started := by
  unfold State.proceed
  by_cases closed : s.closed = true
  · rw [if_pos closed]
    exact ⟨⟨fun closed => ⟨closed,rfl,rfl⟩,fun link => link,fun link => .inl link,.inl rfl,fun _ named => named⟩,rfl⟩
  rw [if_neg closed]
  have opened : s.closed = false := by simpa using closed
  have idle : Still s { s with running := none } := .act opened rfl rfl rfl rfl rfl
  cases call with
  | createOffer | createAnswer => exact ⟨(calling_turn opened _ _).turn,rfl⟩
  | candidate => exact ⟨idle.turn,rfl⟩
  | localOffer =>
    have still := idle.trans (description_still refuses _ .offer)
    exact ⟨still.turn,still.started⟩
  | localAnswer => exact (idle.trans (description_still refuses _ .answer)).opened
  | remote type sdp =>
    obtain ⟨turn,started⟩ := adding_turn (s := { s with pendingCandidates := [] }) opened type s.pendingCandidates
    exact ⟨⟨turn.1,turn.2,turn.3,turn.4,turn.5⟩,started⟩
  | pending type left => exact adding_turn opened type left
theorem takeChannel_turn (opened : s.closed = false) (channel : Channel) :
    Turn s (s.takeChannel config channel) ∧ (s.takeChannel config channel).started = s.started := by
  rw [State.takeChannel]
  split
  · have noted : Still s { s with log := s.log ++ [.refuseChannel] } := .act opened rfl rfl rfl rfl rfl
    have still := noted.trans (close_still _ .protocol)
    exact ⟨still.turn,still.started⟩
  · rcases opened_cases { s with channel := some channel } with same | ⟨_,described,channel',same⟩
    · rw [same]
      exact ⟨.act opened (fun link => link) (fun link => .inl link) rfl rfl,rfl⟩
    · rw [same]
      exact ⟨.act opened (fun _ => rfl) (fun _ => .inr ⟨described,channel'⟩) rfl rfl,rfl⟩

def Event.starts : Event → Bool
  | .start _ _ => true
  | _ => false
theorem step_turn (s : State) (e : Event) :
    Turn s (s.step config refuses e) ∧
      ((s.step config refuses e).started = (s.started || (e.starts && !s.closed))) := by
  have still : ∀ {s' : State}, Still s s' → e.starts = false → Turn s s' ∧
      s'.started = (s.started || (e.starts && !s.closed)) := by
    intro s' still late
    refine ⟨still.turn,?_⟩
    rw [still.started,late]
    simp
  have turn : ∀ {s' : State}, Turn s s' ∧ s'.started = s.started → e.starts = false →
      Turn s s' ∧ s'.started = (s.started || (e.starts && !s.closed)) := by
    rintro s' ⟨turn,started⟩ late
    refine ⟨turn,?_⟩
    rw [started,late]
    simp
  cases e with
  | start listens created =>
    rw [State.step,State.start]
    by_cases began : s.started ∨ s.closed
    · rw [if_pos began]
      refine ⟨(Still.refl s).turn,?_⟩
      rcases began with began | closed
      · simp [began]
      · simp [closed]
    rw [if_neg began]
    rw [not_or] at began
    obtain ⟨unstarted,opened⟩ := began
    have begun : ∀ {s' : State}, Turn { s with started := true,timer := true } s' ∧ s'.started = true →
        Turn s s' ∧ s'.started = (s.started || ((Event.start listens created).starts && !s.closed)) := by
      rintro s' ⟨turn,started⟩
      refine ⟨⟨turn.1,turn.2,turn.3,turn.4,turn.5⟩,?_⟩
      rw [started]
      simp [Event.starts,opened]
    dsimp only
    split
    · have still := close_still { s with started := true,timer := true } .signal
      exact begun ⟨still.turn,still.started⟩
    split
    · exact begun ⟨(Still.refl _).turn,rfl⟩
    cases created with
    | none =>
      have still := close_still { s with started := true,timer := true } .channel
      exact begun ⟨still.turn,still.started⟩
    | some channel =>
      obtain ⟨turn,started⟩ :=
        takeChannel_turn config (s := { s with started := true,timer := true }) (by simpa using opened) channel
      exact begun ⟨⟨turn.1,turn.2,turn.3,turn.4,turn.5⟩,started⟩
  | signal signal =>
    rw [State.step]
    split
    · exact still (receive_still config s signal) rfl
    · exact still (Still.refl s) rfl
  | ice candidate =>
    rw [State.step]
    split
    · exact still (ice_still refuses s candidate) rfl
    · exact still (Still.refl s) rfl
  | datachannel channel =>
    rw [State.step]
    split
    · rename_i listening
      exact turn (takeChannel_turn config listening.2 channel) rfl
    · exact still (Still.refl s) rfl
  | readyState opened =>
    exact turn ⟨⟨fun closed => ⟨closed,rfl,rfl⟩,fun link => link,fun link => .inl link,.inl rfl,fun _ named => named⟩,
    rfl⟩ rfl
  | channelOpen => exact turn (Still.refl s).opened rfl
  | channelEnded =>
    rw [State.step]
    split
    · exact still (close_still s .channel) rfl
    · exact still (Still.refl s) rfl
  | connection ended =>
    rw [State.step]
    split
    · exact still (close_still s .native) rfl
    · exact still (Still.refl s) rfl
  | fulfilled sdp =>
    rw [State.step,State.fulfilled]
    split
    · dsimp only
      split <;> exact turn ⟨⟨fun closed => ⟨closed,rfl,rfl⟩,fun link => link,fun link => .inl link,.inr rfl,
        fun _ named => named⟩,rfl⟩ rfl
    · exact still (Still.refl s) rfl
  | failed =>
    rw [State.step,State.failed]
    split
    · exact still ⟨rfl,rfl,rfl,rfl,fun closed => ⟨closed,rfl⟩,fun _ named => named⟩ rfl
    · exact still (Still.refl s) rfl
  | resume =>
    rw [State.step,State.resume]
    split
    · exact turn (proceed_turn refuses s _) rfl
    · have idle : Still s { s with running := none } :=
        ⟨rfl,rfl,rfl,rfl,fun closed => ⟨closed,rfl⟩,fun _ named => named⟩
      exact still (idle.trans (close_still _ .signal)) rfl
    · exact still (Still.refl s) rfl
  | next =>
    rw [State.step,State.next]
    split
    · dsimp only
      split
      · exact still ⟨rfl,rfl,rfl,rfl,fun closed => ⟨closed,rfl⟩,fun _ named => named⟩ rfl
      · rename_i operation operations _ _ opened
        cases operation <;> exact still (.act (by simpa using opened) rfl rfl rfl rfl rfl) rfl
    · exact still (Still.refl s) rfl
  | abort => exact still (close_still s .abort) rfl
  | timeout =>
    rw [State.step]
    split
    · exact still (close_still s .timeout) rfl
    · exact still (Still.refl s) rfl
  | linkClose reason =>
    rw [State.step]
    split
    · exact still (close_still s reason) rfl
    · exact still (Still.refl s) rfl
  | close reason => exact still (close_still s reason) rfl

/-! ### The invariant of a run -/

theorem drawn_valid : validRequestId config.drawn = true := by
  have units : config.drawn.all idUnit = true := by
    apply List.all_eq_true.mpr
    intro unit member
    have hexed := List.all_eq_true.mp config.hexed unit member
    rw [Bool.or_eq_true] at hexed
    rw [idUnit]
    rcases hexed with decimal | letter
    · simp [decimal]
    · simp only [Bool.and_eq_true,decide_eq_true_eq] at letter
      have small : 97 ≤ unit ∧ unit ≤ 122 := ⟨letter.1,by omega⟩
      simp [small]
  rw [validRequestId,config.sized,units]
  rfl
theorem Sound.new : Sound config [] [] (State.new config) := by
  rw [State.new]
  have fresh : Sound config [] [] {
    requestId := if config.initiator then some (config.requestId.getD config.drawn) else config.requestId
    closed := false,closeReason := none,started := false,timer := false,offerSeen := false,answerSeen := false
    descriptionSent := false,earlyCandidates := [],pendingCandidates := [],localCandidates := [],candidates := 0
    sentCandidates := 0,operations := [],running := none,remoteDescription := none,localDescription := none
    channel := none,link := false,ready := .waiting,calls := 0,log := [] } := {
      named := by
        intro id chosen
        dsimp only at chosen
        split at chosen
        · rename_i initiator
          cases given : config.requestId with
          | none =>
            rw [given] at chosen
            cases chosen
            exact drawn_valid config
          | some own =>
            rw [given] at chosen
            cases chosen
            exact config.named _ given
        · exact config.named _ chosen
      whole := fun _ _ _ => rfl
      part := fun _ _ => List.nil_prefix
      early := fun _ _ _ _ => rfl
      unnamed := fun _ => ⟨rfl,rfl⟩
      fresh := fun _ => ⟨rfl,rfl,rfl⟩
      chooses := by
        intro initiator
        simp [initiator]
      queued := by simp
      adding := by simp
      set := by simp
      pending := fun _ => .inl rfl
      emptied := by simp
      passing := by simp [passed]
      counted := Nat.le_refl 0
      bounded := Nat.zero_le _
      once := Nat.le_refl 0
      sides := by simp
      outWhole := fun _ => rfl
      outPart := List.nil_prefix
      described := by simp
      behind := Preceded.nil
      setting := by simp
      setFirst := Preceded.nil
      outCounted := Nat.le_refl 0
      outBounded := Nat.zero_le _
      ended := rfl
      ready := rfl
      linked := by simp
      timed := by simp }
  split
  · exact fresh.close .abort
  · exact fresh

variable {config} {arrivals : List (Text × Value)} {gathered : List Value}
theorem Sound.start (sound : Sound config arrivals gathered s) (listens : Bool) (created : Option Channel) :
    Sound config arrivals gathered (s.start config listens created) := by
  rw [State.start]
  split
  · exact sound
  have begun : Sound config arrivals gathered { s with started := true,timer := true } :=
    { sound with timed := fun _ _ _ => rfl }
  dsimp only
  split
  · exact begun.close .signal
  split
  · exact begun
  rename_i initiator
  cases created with
  | none => exact begun.close .channel
  | some channel =>
    dsimp only
    have taken := begun.takeChannel channel
    generalize State.takeChannel config { s with started := true,timer := true } channel = s' at taken
    have named := taken.chooses (by simpa using initiator)
    have applies : (s'.operations ++ [Operation.offer]).filterMap Operation.applies =
        s'.operations.filterMap Operation.applies := by
      rw [List.filterMap_append]
      exact List.append_nil _
    exact taken.enqueue named .offer rfl s'.offerSeen s'.answerSeen (by rw [applies]; exact taken.once) taken.sides

/-- The candidate that the native connection gives with an event. -/
def gathers : Event → Option Value
  | .ice candidate => candidate
  | _ => none
theorem Sound.native (sound : Sound config arrivals gathered s) (e : Event) (unsignalled : ∀ signal, e ≠ .signal signal)
    (ungathered : ∀ candidate, e ≠ .ice candidate) : Sound config arrivals gathered (s.step config refuses e) := by
  cases e with
  | signal signal => exact absurd rfl (unsignalled signal)
  | ice candidate => exact absurd rfl (ungathered candidate)
  | start listens created => exact sound.start listens created
  | datachannel channel =>
    rw [State.step]
    split
    · exact sound.takeChannel channel
    · exact sound
  | readyState opened =>
    exact { sound with
      linked := fun linked => ⟨(sound.linked linked).1,Option.isSome_map.trans (sound.linked linked).2⟩ }
  | channelOpen => exact sound.opened
  | channelEnded =>
    rw [State.step]
    split
    · exact sound.close .channel
    · exact sound
  | connection ended =>
    rw [State.step]
    split
    · exact sound.close .native
    · exact sound
  | fulfilled sdp => exact sound.fulfilled sdp
  | failed => exact sound.failed
  | resume => exact sound.resume refuses
  | next => exact sound.next
  | abort => exact sound.close .abort
  | timeout =>
    rw [State.step]
    split
    · exact sound.close .timeout
    · exact sound
  | linkClose reason =>
    rw [State.step]
    split
    · exact sound.close reason
    · exact sound
  | close reason => exact sound.close reason
theorem Sound.step (sound : Sound config arrivals gathered s) (started : s.started = true) (e : Event) :
    Sound config (arrivals ++ (arrival config e).toList) (gathered ++ (gathers e).toList)
      (s.step config refuses e) := by
  cases e with
  | signal signal =>
    rw [State.step,if_pos started]
    exact (List.append_nil gathered).symm ▸ sound.receive signal
  | ice candidate =>
    rw [State.step,if_pos started]
    exact (List.append_nil arrivals).symm ▸ sound.ice refuses candidate
  | _ =>
    rw [show (arrival config _).toList = [] from rfl,show (gathers _).toList =
      [] from rfl,List.append_nil,List.append_nil]
    exact sound.native refuses _ (by simp) (by simp)
theorem Sound.unstarted (sound : Sound config arrivals gathered s) (unstarted : s.started = false) (e : Event) :
    Sound config arrivals gathered (s.step config refuses e) := by
  cases e with
  | signal signal | ice candidate =>
    rw [State.step,if_neg (by simp [unstarted])]
    exact sound
  | _ => exact sound.native refuses _ (by simp) (by simp)

/-! ### Runs -/

/-- The events that a peer listens to, which come behind its start. -/
def heard : List Event → List Event
  | [] => []
  | e :: events => if e.starts then events else heard events
theorem heard_append (events : List Event) (e : Event) :
    heard (events ++ [e]) = heard events ++ (if events.any Event.starts then [e] else []) := by
  induction events with
  | nil => cases e <;> rfl
  | cons first events ih =>
    rw [List.cons_append,heard,heard,List.any_cons]
    by_cases starts : first.starts = true
    · simp [starts]
    · simp [starts,ih]
variable (config) in
/-- The candidates that the peer was signalled while it listened, with their request ids. -/
def arrived (events : List Event) : List (Text × Value) := (heard events).filterMap (arrival config)
/-- The candidates that the native connection gave while the peer listened. -/
def given (events : List Event) : List Value := (heard events).filterMap gathers

section
variable (events : List Event) (e : Event)
theorem arrived_append : arrived config (events ++ [e]) = arrived config events ++ if events.any Event.starts
    then (arrival config e).toList else [] := by
  rw [arrived,heard_append,List.filterMap_append,arrived]
  split
  · cases found : arrival config e <;> simp [found]
  · rfl
theorem given_append : given (events ++ [e]) = given events ++ if events.any Event.starts then (gathers e).toList
    else [] := by
  rw [given,heard_append,List.filterMap_append,given]
  split
  · cases found : gathers e <;> simp [found]
  · rfl
end

variable (config) in
theorem run_sound (events : List Event) :
    Sound config (arrived config events) (given events) (run config refuses events) ∧
    ((run config refuses events).started = true → events.any Event.starts = true) ∧
    ((run config refuses events).closed = false → events.any Event.starts = true →
      (run config refuses events).started = true) := by
  apply foldl_history (P := fun events s => Sound config (arrived config events) (given events) s ∧
    (s.started = true → events.any Event.starts = true) ∧
    (s.closed = false → events.any Event.starts = true → s.started = true))
  · have unstarted : (State.new config).started = false := by
      rw [State.new]
      split
      · exact (close_still _ .abort).started
      · rfl
    exact ⟨Sound.new config,by simp [unstarted],by simp⟩
  · rintro events s e ⟨sound,begun,starts⟩
    obtain ⟨turn,started⟩ := step_turn config refuses s e
    have any : (events ++ [e]).any Event.starts = (events.any Event.starts || e.starts) := by simp
    refine ⟨?_,?_,?_⟩
    · rw [arrived_append,given_append]
      cases listening : s.started with
      | true =>
        rw [if_pos (begun listening),if_pos (begun listening)]
        exact sound.step refuses listening e
      | false =>
        have held := sound.unstarted refuses listening e
        by_cases late : events.any Event.starts = true
        · -- Only a peer that has closed before its start does not listen.
          have closed : s.closed = true := by
            by_contra opened
            rw [starts (by simpa using opened) late] at listening
            cases listening
          exact held.growth (turn.closed closed).1 _ _
        · rw [if_neg late,if_neg late,List.append_nil,List.append_nil]
          exact held
    · intro now
      rw [started,Bool.or_eq_true,Bool.and_eq_true] at now
      rw [any,Bool.or_eq_true]
      exact now.imp begun (·.1)
    · intro opened ever
      have before : s.closed = false := by
        by_contra closed
        rw [(turn.closed (by simpa using closed)).1] at opened
        cases opened
      rw [any,Bool.or_eq_true] at ever
      rw [started,Bool.or_eq_true,Bool.and_eq_true]
      exact ever.imp (starts before) (fun starts => ⟨starts,by simp [before]⟩)

/-! ### Progress -/

/-- How many native calls an operation has before it that waits for this one, at the most,
    where no candidate is pending. -/
def Call.rank : Call → Nat
  | .candidate | .localOffer | .localAnswer => 1
  | .createOffer | .createAnswer => 2
  | .pending _ left => 3 + left.length
  | .remote _ _ => 4
def Running.work : Running → Nat
  | ⟨call,none⟩ => 2 * call.rank + 1
  | ⟨call,some _⟩ => 2 * call.rank
def Operation.work : Operation → Nat
  | .candidate _ => 4
  | .offer => 6
  | .description _ _ => 10
/-- What the operations of a peer still have to do. -/
def State.work (s : State) : Nat :=
  (s.running.map Running.work).getD 0 + 2 * s.pendingCandidates.length + (s.operations.map Operation.work).sum
/-- The events that the operations of a peer wait for: that the call of the one under way is
    settled, that it goes on, or that the next has its turn. -/
def State.due (s : State) : Event → Prop
  | .fulfilled _ | .failed => ∃ call, s.running = some ⟨call,none⟩
  | .resume => ∃ call succeeded, s.running = some ⟨call,some succeeded⟩
  | .next => s.running = none ∧ s.operations ≠ []
  | _ => False

theorem close_work (s : State) (reason : Reason) : (s.close reason).work ≤ s.work := by
  rw [State.close]
  split
  · exact Nat.le_refl _
  · rw [State.work,State.work]
    dsimp only [List.length_nil]
    omega
theorem signal_work (s : State) (type : Text) (payload : List (Text × Value)) :
    (s.signal refuses type payload).work ≤ s.work := by
  rcases signal_cases refuses s type payload with ⟨_,same⟩ | ⟨_,told | refused⟩
  · rw [same]
  · rw [told]
    exact Nat.le_refl _
  · rw [refused]
    exact close_work (s.told type payload) .signal
theorem signalCandidates_work (left : List Value) (s : State) :
    (left.foldl (State.signalCandidate refuses) s).work ≤ s.work := by
  induction left generalizing s with
  | nil => exact Nat.le_refl _
  | cons value left ih => exact Nat.le_trans (ih _) (signal_work refuses s (lit "candidate") [(lit "candidate",value)])
theorem description_work (s : State) (type : Kind) : (s.description refuses type).work ≤ s.work := by
  rw [State.description]
  cases s.localDescription with
  | none => exact close_work s .protocol
  | some sdp =>
    dsimp only
    split
    · exact close_work s .protocol
    · exact Nat.le_trans (signalCandidates_work refuses _ _) (signal_work refuses s type.text [(lit "sdp",.string sdp)])
theorem opened_work (s : State) : s.opened.work = s.work := by
  rw [State.opened]
  split <;> rfl
theorem adding_work (s : State) (type : Kind) (left : List Value) :
    (s.adding type left).work ≤ 2 * (2 + left.length) + 1 + 2 * s.pendingCandidates.length +
      (s.operations.map Operation.work).sum := by
  cases left with
  | cons candidate left =>
    rw [State.adding,State.work]
    simp only [State.calling,Option.map_some,Option.getD_some,Running.work,Call.rank,List.length_cons]
    omega
  | nil =>
    cases type with
    | offer =>
      rw [State.adding,State.work]
      simp only [State.calling,Option.map_some,Option.getD_some,Running.work,Call.rank,List.length_nil]
      omega
    | answer =>
      rw [State.adding,opened_work,State.work]
      simp only [Option.map_none,Option.getD_none,List.length_nil]
      omega

theorem rank_pos (call : Call) : 0 < call.rank := by
  cases call <;> simp [Call.rank]
theorem work_running {running : Running} (under : s.running = some running) :
    s.work = running.work + 2 * s.pendingCandidates.length + (s.operations.map Operation.work).sum := by
  rw [State.work,under]
  rfl
theorem calling_work (s : State) (a : Action) (call : Call) :
    (s.calling a call).work = 2 * call.rank + 1 + 2 * s.pendingCandidates.length +
      (s.operations.map Operation.work).sum := rfl
theorem proceed_work {call : Call} (under : s.running = some ⟨call,some true⟩) :
    (s.proceed refuses call).work < s.work := by
  have before := work_running under
  have filled := rank_pos call
  have idle : State.work { s with running := none } =
      2 * s.pendingCandidates.length + (s.operations.map Operation.work).sum := by
    rw [State.work]
    simp
  simp only [Running.work] at before
  unfold State.proceed
  by_cases closed : s.closed = true
  · rw [if_pos closed]
    omega
  rw [if_neg closed]
  cases call with
  | createOffer | createAnswer =>
    dsimp only
    rw [calling_work]
    simp only [Call.rank] at before ⊢
    omega
  | candidate =>
    dsimp only
    omega
  | localOffer =>
    have less := description_work refuses { s with running := none } .offer
    dsimp only
    omega
  | localAnswer =>
    have less := description_work refuses { s with running := none } .answer
    dsimp only
    rw [opened_work]
    omega
  | remote type sdp =>
    have less := adding_work { s with pendingCandidates := [] } type s.pendingCandidates
    simp only [Call.rank] at before
    dsimp only [List.length_nil] at less ⊢
    omega
  | pending type left =>
    have less := adding_work s type left
    simp only [Call.rank] at before
    dsimp only
    omega
theorem begin_work (operation : Operation) (idle : s.running = none) :
    (s.begin operation).work < s.work + operation.work := by
  have before : s.work = 2 * s.pendingCandidates.length + (s.operations.map Operation.work).sum := by
    rw [State.work,idle]
    simp
  cases operation with
  | offer | description _ _ | candidate _ =>
    rw [State.begin,calling_work]
    simp only [Call.rank,Operation.work]
    omega

theorem due_work {e : Event} (due : s.due e) : (s.step config refuses e).work < s.work := by
  cases e with
  | fulfilled sdp =>
    obtain ⟨call,under⟩ := due
    rw [State.step,State.fulfilled,under,work_running under]
    cases call <;> (rw [work_running rfl]; simp only [Running.work]; omega)
  | failed =>
    obtain ⟨call,under⟩ := due
    rw [State.step,State.failed,under,work_running under]
    dsimp only
    rw [work_running rfl]
    simp only [Running.work]
    omega
  | resume =>
    obtain ⟨call,succeeded,under⟩ := due
    rw [State.step,State.resume,under]
    cases succeeded with
    | true => exact proceed_work refuses under
    | false =>
      have less := close_work { s with running := none } .signal
      have filled := rank_pos call
      have idle : State.work { s with running := none } =
          2 * s.pendingCandidates.length + (s.operations.map Operation.work).sum := by
        rw [State.work]
        simp
      have before := work_running under
      simp only [Running.work] at before
      dsimp only
      omega
  | next =>
    rw [State.step,State.next]
    split
    · rename_i operation operations idle queue
      have before : s.work = State.work { s with operations } + operation.work := by
        rw [State.work,State.work,queue,List.map_cons,List.sum_cons]
        dsimp only
        omega
      dsimp only
      split
      · cases operation <;> simp only [Operation.work] at before <;> omega
      · rw [before]
        exact begin_work (s := { s with operations }) operation idle
    · rename_i blocked
      obtain ⟨operation,operations,queue⟩ := List.exists_cons_of_ne_nil due.2
      exact absurd queue (blocked operation operations due.1)
  | _ => exact absurd due (by simp [State.due])
theorem busy_due (busy : s.running ≠ none ∨ s.operations ≠ []) : ∃ e, s.due e := by
  cases under : s.running with
  | none => exact ⟨.next,under,busy.resolve_left (by simp [under])⟩
  | some running =>
    obtain ⟨call,settled⟩ := running
    cases settled with
    | none => exact ⟨.failed,call,under⟩
    | some succeeded => exact ⟨.resume,call,succeeded,under⟩

/-! ### Each signal once -/

variable (config) in
/-- A signal of another sender, over another transport or under another request id than the
    one that is fixed. -/
def Foreign (s : State) (signal : Signal) : Prop :=
  signal.sender ≠ config.peerPubkey ∨ signal.transport ≠ realtimeTransport ∨ ∃ id, s.requestId = some id ∧
    signal.requestId ≠ id
theorem foreign_step {signal : Signal} (foreign : Foreign config s signal) :
    s.step config refuses (.signal signal) = s := by
  rw [State.step]
  split
  swap
  · rfl
  rw [State.receive]
  split
  · rfl
  rename_i own
  simp only [not_or,not_not] at own
  rcases foreign with sender | transport | ⟨id,chosen,apart⟩
  · exact absurd own.2.1 sender
  · exact absurd own.2.2.1 transport
  · rw [if_neg (by simp [chosen]),State.hear,if_pos]
    left
    rw [chosen]
    simpa using apart

variable (config) in
/-- What a peer that has come as far as `s` makes of the signals that it heard in `events`. -/
structure Negotiated (events : List Event) (s : State) : Prop where
  -- The request id is fixed once, and what is foreign to it changes nothing.
  fixed : ∀ e id, s.requestId = some id → (s.step config refuses e).requestId = some id
  foreign : ∀ signal, Foreign config s signal → s.step config refuses (.signal signal) = s
  oneDescription : (applied s.log).length ≤ 1
  -- The candidates of an open peer are passed or wait, and those of a closed one were passed in order.
  whole : s.closed = false → ∀ id, s.requestId = some id → under id (arrived config events) = passed s.log ++ s.waiting
  part : ∀ id, s.requestId = some id → passed s.log <+: under id (arrived config events)
  unnamed : s.requestId = none → passed s.log = []
  late : ∀ e, passed (s.step config refuses e).log ≠ passed s.log → s.remoteDescription ≠ none
  -- Until none waits, something is due, or the time of the peer runs out.
  progress : ∀ e, s.due e → (s.step config refuses e).work < s.work
  rest : s.closed = false → (∀ e, ¬ s.due e) → s.remoteDescription ≠ none → s.waiting = []
  timed : s.closed = false → s.started = true → s.remoteDescription = none → s.timer = true
  -- The candidates of the native connection are signalled in order, behind the description.
  outWhole : s.closed = false → given events = signalled s.log ++ s.localCandidates
  outPart : signalled s.log <+: given events
  behind : Preceded Action.candidate Action.describes s.log
  described : Preceded Action.describes (· = .setLocalDescription) s.log
  -- Bounds.
  fewIn : (passed s.log).length + s.waiting.length + s.earlyCandidates.length ≤ maxCandidates
  fewOut : (signalled s.log).length + s.localCandidates.length ≤ maxCandidates
  -- The end.
  settled : s.ready ≠ .waiting → ∀ e, (s.step config refuses e).ready = s.ready
  linked : ∀ e, (s.step config refuses e).ready = .link → s.ready = .link ∨
    (s.step config refuses e).remoteDescription ≠ none ∧
      ∃ channel, (s.step config refuses e).channel = some channel ∧ channel.opened = true
  ended : (endings s.log).length ≤ 1
  closed : s.closed = true → ∀ e, (s.step config refuses e).closed = true ∧ (s.step config refuses e).log = s.log

theorem Sound.settled (sound : Sound config arrivals gathered s) {s' : State} {arrivals' : List (Text × Value)}
    {gathered' : List Value} (next : Sound config arrivals' gathered' s') (turn : Turn s s') :
    (s.ready ≠ .waiting → s'.ready = s.ready) ∧
    (s'.ready = .link → s.ready = .link ∨ s'.remoteDescription ≠ none ∧ ∃ channel, s'.channel = some channel ∧
      channel.opened = true) := by
  have before := sound.ready
  have after := next.ready
  constructor
  · intro ends
    cases link : s.link with
    | true =>
      rw [before,after,link,turn.link link]
      rfl
    | false =>
      have closed : s.closed = true := by
        by_contra opened
        rw [link] at before
        simp only [Bool.not_eq_true] at opened
        rw [opened] at before
        exact ends before
      obtain ⟨closed',_,same⟩ := turn.closed closed
      rw [before,after,same,closed,closed']
  · intro linked
    have now : s'.link = true := by
      by_contra unlinked
      rw [if_neg unlinked] at after
      rw [after] at linked
      split at linked <;> cases linked
    rcases turn.linked now with link | shown
    · left
      rw [before,if_pos link]
    · exact .inr shown

/-- Each signal is used once: in every run, what the peer passes on, signals, applies and
    reports is what it heard, once, in order and in time. -/
theorem negotiates_once (config : Config) (refuses : Nat → Bool) (events : List Event) :
    Negotiated config refuses events (run config refuses events) := by
  obtain ⟨sound,begun,_⟩ := run_sound config refuses events
  have later :
      ∀ e, ∃ arrivals gathered, Sound config arrivals gathered ((run config refuses events).step config refuses e) := by
    intro e
    have held := (run_sound config refuses (events ++ [e])).1
    rw [run,List.foldl_append] at held
    exact ⟨_,_,held⟩
  generalize run config refuses events = s at sound begun later
  exact {
    fixed := fun e => (step_turn config refuses s e).1.named
    foreign := fun signal => foreign_step refuses
    oneDescription := by
      have once := sound.once
      have sides := sound.sides
      have offered := Bool.toNat_le s.offerSeen
      have answered := Bool.toNat_le s.answerSeen
      split at sides <;> (rw [sides,Bool.toNat_false] at once; omega)
    whole := sound.whole
    part := sound.part
    unnamed := fun unnamed => (sound.unnamed unnamed).1
    late := by
      intro e more
      obtain ⟨_,_,next⟩ := later e
      rcases (step_turn config refuses s e).1.described with same | same
      · by_cases none : passed (s.step config refuses e).log = []
        · apply sound.passing
          rw [none] at more
          exact more.symm
        · rw [← same]
          exact next.passing none
      · rw [same] at more
        exact absurd rfl more
    progress := fun e => due_work refuses
    rest := by
      intro _ still described
      obtain ⟨idle,empty⟩ : s.running = none ∧ s.operations = [] := by
        by_contra busy
        obtain ⟨e,due⟩ := busy_due (s := s) (by
          rw [not_and_or] at busy
          exact busy)
        exact still e due
      have none : s.pendingCandidates = [] := by
        rcases sound.pending described with none | ⟨type,sdp,same⟩
        · exact none
        · rw [idle] at same
          cases same
      rw [State.waiting,idle,empty,none]
      rfl
    timed := by
      intro opened started undescribed
      apply sound.timed opened started
      by_contra linked
      exact (sound.linked (by simpa using linked)).1 undescribed
    outWhole := sound.outWhole
    outPart := sound.outPart
    behind := sound.behind
    described := sound.setFirst
    fewIn := sound.bounded
    fewOut := sound.outBounded
    settled := by
      intro ends e
      obtain ⟨_,_,next⟩ := later e
      exact (sound.settled next (step_turn config refuses s e).1).1 ends
    linked := by
      intro e
      obtain ⟨_,_,next⟩ := later e
      exact (sound.settled next (step_turn config refuses s e).1).2
    ended := by
      rw [sound.ended]
      cases s.closed <;> simp
    closed := fun closed e =>
      ⟨((step_turn config refuses s e).1.closed closed).1,((step_turn config refuses s e).1.closed closed).2.1⟩ }
end
private def answerer : Config := ⟨lit "p",false,none,List.replicate 32 48,none,false,by simp,rfl,by decide +kernel⟩
private def offered : List Event :=
  [.start true none,
    .signal ⟨lit "p",lit "candidate",realtimeTransport,List.replicate 32 49,
      .object [(lit "candidate",.object [(lit "candidate",.string (lit "c"))])]⟩,
    .signal ⟨lit "p",lit "offer",realtimeTransport,List.replicate 32 49,.object [(lit "sdp",.string (lit "o"))]⟩,
    .next,.fulfilled none,.resume,.next,.fulfilled none,.resume,.next]
/-- A candidate that came before the offer is passed on behind it. -/
theorem negotiates_once_early : Negotiated answerer (fun _ => false) offered (run answerer (fun _ => false) offered) ∧
    (passed (run answerer (fun _ => false) offered).log).length = 1 :=
  ⟨negotiates_once answerer (fun _ => false) offered,by decide +kernel⟩
end RelaySwarm.RealtimePeer
