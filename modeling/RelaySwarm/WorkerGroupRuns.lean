import RelaySwarm.WorkerGroup

/-!
The process group of a broadcast worker over every course of messages, signals and
crashes. The first request to kill is the last message; a group that is taken for closed
has no member left, and none comes back (`closed_proved`).
-/
namespace RelaySwarm.WorkerGroup

/-! ### What holds in every state -/

/-- What was asked of the wrapper, what it said, and what is left of the group. -/
structure Sound (s : State) : Prop where
  unasked : s.control.killRequested = false → .signal .kill ∉ s.control.sent
  last : ∀ earlier later, s.control.sent = earlier ++ .signal .kill :: later → later = []
  stops : s.control.killRequested = true → s.control.stopping = true
  starts : s.control.sent.count .start ≤ s.control.configured.toNat
  down : s.down ⊆ s.control.sent
  witness : .draining ∈ s.up ∨ s.control.draining = true → .signal .kill ∈ s.control.sent
  results : ∀ status, .result status ∈ s.up ∨ s.control.status = some status → s.wrapper.ended = some status
  unfinished : s.wrapper.finishing = false → s.wrapper.ended = none
  launches : s.wrapper.launches ≤ s.wrapper.started.toNat
  piped : s.control.pipeClosed = true → s.control.live = false
  unborn : s.control.pid = false → s.alive = false
  resolved : ∀ status, s.control.settled = some (.resolved status) → s.alive = false ∧ s.control.draining = true ∧
    s.control.pipeClosed = true ∧ s.control.pendingSends = 0 ∧ status = s.control.status.getD ⟨none,none⟩

theorem sound_new (pid : Bool) : Sound (State.new pid) := by
  constructor <;> simp [State.new,controlWorkerGroup,State.alive]

namespace Sound
variable {s : State} {weather : Weather}

theorem absent (sound : Sound s) (proved : Proved (s.reading weather) s.control) : s.alive = false := by
  by_cases pid : s.control.pid = true
  · have probe := proved.absent.1 pid
    unfold State.reading at probe
    dsimp only at probe
    split_ifs at probe with denied alive
    simpa using alive
  · exact sound.unborn (by simpa using pid)
theorem settles (sound : Sound s) {c : Control} (settles : Settles (s.reading weather) s.control c) :
    Sound { s with control := c } := by
  rw [settles.frame]
  refine { sound with resolved := fun status same => ?_ }
  have same' : c.settled = some (.resolved status) := same
  rcases settles.settled with still | ⟨_,rejected | ⟨proved,resolved⟩⟩
  · exact sound.resolved status (still.symm.trans same')
  · rw [rejected] at same'
    cases same'
  · rw [resolved] at same'
    cases same'
    exact ⟨sound.absent proved,proved.draining,proved.absent.2,proved.sends,rfl⟩
theorem observe (sound : Sound s) : Sound { s with control := s.control.observe (s.reading weather) } :=
  sound.settles (Control.observe_settles _ _)
theorem fail (sound : Sound s) : Sound { s with control := s.control.fail (s.reading weather) } :=
  sound.settles (Control.fail_settles _ _)
theorem sends (sound : Sound s) {message : Command} (unkilled : .signal .kill ∉ s.control.sent)
    (first : message = .signal .kill → s.control.killRequested = true)
    (start : (s.control.sent ++ [message]).count .start ≤ s.control.configured.toNat) :
    Sound (s.controlled (s.control.send message (s.reading weather))) := by
  rcases Control.send_cases (s.reading weather) s.control message with settles | ⟨live,sent⟩
  · have same : (s.control.send message (s.reading weather)).sent = s.control.sent := by rw [settles.frame]
    have still : s.controlled (s.control.send message (s.reading weather)) =
        { s with control := s.control.send message (s.reading weather) } := by
      unfold State.controlled
      rw [same,List.drop_length,List.append_nil]
    rw [still]
    exact sound.settles settles
  · have after : s.controlled (s.control.send message (s.reading weather)) = { s with
        control := { s.control with
          pendingSends := s.control.pendingSends + 1, sent := s.control.sent ++ [message] }
        down := s.down ++ [message] } := by
      unfold State.controlled
      rw [sent,List.drop_left]
    rw [after]
    refine { sound with
      unasked := fun unasked => ?_, last := fun earlier later split => ?_, starts := start, down := ?_
      witness := fun drained => List.mem_append_left _ (sound.witness drained), resolved := fun status same => ?_ }
    · intro member
      rcases List.mem_append.mp member with old | new
      · exact unkilled old
      · have asked := first (List.mem_singleton.mp new).symm
        rw [show s.control.killRequested = false from unasked] at asked
        cases asked
    · rcases List.eq_nil_or_concat later with rfl | ⟨rest,ending,rfl⟩
      · rfl
      · have split' : s.control.sent ++ [message] = (earlier ++ .signal .kill :: rest) ++ [ending] := by
          rw [List.concat_eq_append] at split
          simpa using split
        have front := (List.append_inj' split' rfl).1
        exact absurd (by rw [front]; simp) unkilled
    · intro other member
      rcases List.mem_append.mp member with old | new
      · exact List.mem_append_left _ (sound.down old)
      · exact List.mem_append_right _ new
    · have closed := sound.piped (sound.resolved status same).2.2.1
      rw [live] at closed
      cases closed
theorem controlled_same {s : State} {c : Control} (same : c.sent = s.control.sent) :
    s.controlled c = { s with control := c } := by
  unfold State.controlled
  rw [same,List.drop_length,List.append_nil]
theorem quiet {s : State} {c : Control} (same : c.sent = s.control.sent) (sound : Sound { s with control := c }) :
    Sound (s.controlled c) := by
  rw [controlled_same same]
  exact sound
theorem controlled_edit {s : State} (edited : Control) {c : Control} (same : edited.sent = s.control.sent) :
    s.controlled c = ({ s with control := edited } : State).controlled c := by
  unfold State.controlled
  rw [same]
theorem signal (sound : Sound s) (value : Signal) :
    Sound (s.controlled (s.control.signal value (s.reading weather))) := by
  unfold Control.signal
  by_cases idle : s.control.live = false ∨ s.control.connected = false ∨ s.control.killRequested = true ∨
      s.control.draining = true
  · rw [if_pos idle]
    exact quiet rfl sound
  rw [if_neg idle]
  push Not at idle
  have unasked : s.control.killRequested = false := by simpa using idle.2.2.1
  have unkilled := sound.unasked unasked
  have starts : ∀ value, (s.control.sent ++ [Command.signal value]).count Command.start ≤
      s.control.configured.toNat := by
    intro value
    rw [List.count_append]
    simpa using sound.starts
  dsimp only
  cases value with
  | term =>
    rw [if_neg (by decide),controlled_edit { s.control with stopping := true } rfl]
    have stopping : Sound { s with control := { s.control with stopping := true } } :=
      { sound with stops := fun _ => rfl }
    exact stopping.sends unkilled (fun same => (nomatch same)) (starts .term)
  | kill =>
    rw [if_pos rfl]
    have asked : Sound { s with control := { s.control with stopping := true, killRequested := true } } :=
      { sound with unasked := fun none => (nomatch none), stops := fun _ => rfl }
    have observed : Sound { s with
        control :=
          ({ s.control with stopping := true, killRequested := true } : Control).observe (s.reading weather) } :=
      asked.observe
    have frame := (Control.observe_settles (s.reading weather)
      ({ s.control with stopping := true, killRequested := true } : Control)).frame
    generalize ({ s.control with stopping := true, killRequested := true } : Control).observe (s.reading weather) = c
      at frame observed ⊢
    have sent : c.sent = s.control.sent := by rw [frame]
    have asked' : c.killRequested = true := by rw [frame]
    have configured : c.configured = s.control.configured := by rw [frame]
    rw [controlled_edit c sent]
    refine observed.sends ?_ (fun _ => asked') ?_
    · show Command.signal .kill ∉ c.sent
      rw [sent]
      exact unkilled
    · show (c.sent ++ [Command.signal .kill]).count .start ≤ c.configured.toNat
      rw [sent,configured]
      exact starts .kill
theorem report (sound : Sound s) {message : Report} {up : List Report} (first : s.up = message :: up) :
    Sound (({ s with up } : State).controlled (s.control.onMessage message (s.reading weather))) := by
  have sent : message ∈ s.up := by rw [first]; exact List.mem_cons_self
  have less : up ⊆ s.up := by rw [first]; exact List.subset_cons_self _ _
  have taken : Sound { s with up } := { sound with
    witness := fun drained => sound.witness (drained.imp_left (fun member => less member))
    results := fun status told => sound.results status (told.imp_left (fun member => less member)) }
  unfold Control.onMessage
  by_cases deaf : s.control.pipeClosed = true ∨ s.control.channelClosed = true ∨ s.control.settled.isSome = true ∨
      s.control.uncertain = true
  · rw [if_pos deaf]
    exact quiet (s := { s with up }) rfl taken
  rw [if_neg deaf]
  push Not at deaf
  have isOpen : s.control.settled = none := by simpa using deaf.2.2.1
  have tells : ∀ told, Sound { s with control := { s.control with told }, up } := fun told => { taken with }
  cases message with
  | ready =>
    dsimp only
    by_cases configured : s.control.configured = true
    · rw [if_pos configured]
      exact quiet (s := { s with up }) rfl taken
    rw [if_neg configured]
    by_cases stopping : s.control.stopping = true
    · rw [if_pos stopping]
      exact taken.signal .kill
    · rw [if_neg stopping,controlled_edit (s := { s with up }) { s.control with configured := true } rfl]
      have unconfigured : s.control.configured = false := by simpa using configured
      have unasked : s.control.killRequested = false := by
        by_contra asked
        exact stopping (sound.stops (by simpa using asked))
      have none : s.control.sent.count .start = 0 := by
        have starts := sound.starts
        rw [unconfigured] at starts
        simpa using starts
      have configures : Sound { s with control := { s.control with configured := true }, up } :=
        { taken with starts := none.le.trans (Nat.zero_le _) }
      refine configures.sends (sound.unasked unasked) (fun same => (nomatch same)) ?_
      show (s.control.sent ++ [Command.start]).count .start ≤ 1
      rw [List.count_append,none]
      simp
  | spawn =>
    dsimp only
    split_ifs
    · exact quiet (s := { s with up }) rfl (tells _)
    · exact quiet (s := { s with up }) rfl taken
  | error code =>
    dsimp only
    split_ifs
    · exact quiet (s := { s with up }) rfl (tells _)
    · exact quiet (s := { s with up }) rfl taken
  | result status =>
    dsimp only
    by_cases fresh : s.control.configured = true ∧ s.control.status = none
    · rw [if_pos fresh,controlled_edit (s := { s with up }) { s.control with status := some status } rfl]
      have noted : Sound { s with control := { s.control with status := some status }, up } := { taken with
        results := fun other told => sound.results other (by
          rcases told with coming | now
          · exact .inl (less coming)
          · cases now
            exact .inl sent)
        resolved := fun other settled => by
          rw [show s.control.settled = some (.resolved other) from settled] at isOpen
          cases isOpen }
      exact noted.signal .kill
    · rw [if_neg fresh]
      exact quiet (s := { s with up }) rfl taken
  | draining =>
    dsimp only
    split_ifs
    · refine quiet (s := { s with up }) rfl { taken with
        witness := fun _ => sound.witness (.inl sent), resolved := fun other settled => ?_ }
      rw [show s.control.settled = some (.resolved other) from settled] at isOpen
      cases isOpen
    · exact quiet (s := { s with up }) rfl taken

/-! ### The wrapper's part -/

/-- What the wrapper does keeps the books when it is no more alive than before, says it
    drains only when it was asked to, and reports the end that it noted. -/
theorem acts (sound : Sound s) {w : Wrapper} {messages : List Report}
    (alive : s.alive = false → (w.alive || w.others) = false)
    (drains : .draining ∈ messages → .signal .kill ∈ s.control.sent)
    (results : ∀ status, .result status ∈ messages → w.ended = some status)
    (kept : ∀ status, s.wrapper.ended = some status → w.ended = some status)
    (unfinished : w.finishing = false → w.ended = none) (launches : w.launches ≤ w.started.toNat) :
    Sound (s.acted (w,messages)) := by
  refine { sound with
    witness := fun drained => ?_, results := fun status told => ?_, unfinished := unfinished, launches := launches
    unborn := fun pid => alive (sound.unborn pid), resolved := fun status settled => ?_ }
  · rcases drained with coming | now
    · rcases List.mem_append.mp coming with old | new
      · exact sound.witness (.inl old)
      · exact drains new
    · exact sound.witness (.inr now)
  · rcases told with coming | now
    · rcases List.mem_append.mp coming with old | new
      · exact kept status (sound.results status (.inl old))
      · exact results status new
    · exact kept status (sound.results status (.inr now))
  · obtain ⟨gone,rest⟩ := sound.resolved status settled
    exact ⟨alive gone,rest⟩

end Sound

/-- What an action of the wrapper says and notes. -/
structure Reports (kill : Prop) (w : Wrapper) (acts : Acts) : Prop where
  drains : .draining ∈ acts.2 → kill
  results : ∀ status, .result status ∈ acts.2 → acts.1.ended = some status
  kept : ∀ status, w.ended = some status → acts.1.ended = some status
  unfinished : acts.1.finishing = false → acts.1.ended = none
  launches : acts.1.launches ≤ acts.1.started.toNat

namespace Wrapper
variable {kill : Prop} {w : Wrapper}

theorem send_reports (unfinished : w.finishing = false → w.ended = none) (launches : w.launches ≤ w.started.toNat)
    {message : Report} (kills throws : Bool) (drains : message = .draining → kill)
    (result : ∀ status, message = .result status →
      w.ended = some status) : Reports kill w (w.send message kills throws) := by
  unfold send
  split_ifs
  · exact ⟨fun none => (nomatch none),fun _ none => (nomatch none),fun _ same => same,unfinished,launches⟩
  · exact ⟨fun member => drains (List.mem_singleton.mp member).symm,
      fun status member => result status (List.mem_singleton.mp member).symm,fun _ same => same,unfinished,launches⟩
theorem result_reports (unfinished : w.finishing = false → w.ended = none) (launches : w.launches ≤ w.started.toNat)
    (status : Status) (throws : Bool) : Reports kill w (w.result status throws) := by
  unfold result
  by_cases finishing : w.finishing = true
  · rw [if_pos finishing]
    exact ⟨fun none => (nomatch none),fun _ none => (nomatch none),fun _ same => same,unfinished,launches⟩
  · rw [if_neg finishing]
    have none := unfinished (by simpa using finishing)
    have reports : Reports kill { w with finishing := true, ended := some status }
        (({ w with finishing := true, ended := some status } : Wrapper).send (.result status) false throws) := by
      refine send_reports (w := { w with finishing := true, ended := some status }) (fun none => (nomatch none))
        launches false throws
        (fun same => (nomatch same)) (fun other same => ?_)
      cases same
      rfl
    refine { reports with kept := fun other same => ?_ }
    rw [none] at same
    cases same
theorem refused_reports (unfinished : w.finishing = false → w.ended = none) (launches : w.launches ≤ w.started.toNat)
    (code : Nat) (throws : Bool) : Reports kill w (w.refused code throws) := by
  have told : Reports kill w (w.send (.error code) false throws) :=
    send_reports unfinished launches false throws (fun same => (nomatch same)) (fun _ same => (nomatch same))
  have ended : Reports kill (w.send (.error code) false throws).1
      ((w.send (.error code) false throws).1.result ⟨none,none⟩ throws) :=
    result_reports told.unfinished told.launches _ throws
  unfold refused
  dsimp only
  split_ifs
  · refine ⟨fun member => ?_,fun status member => ?_,fun status same => ended.kept status (told.kept status same),
      ended.unfinished,ended.launches⟩
    · exact (List.mem_append.mp member).elim told.drains ended.drains
    · exact (List.mem_append.mp member).elim (fun old => ended.kept status (told.results status old))
        (ended.results status)
  · exact told
theorem onMessage_reports (unfinished : w.finishing = false → w.ended = none) (launches : w.launches ≤ w.started.toNat)
    {message : Command} (asked : message = .signal .kill → kill) (fails : Option Nat) (throws : Bool) :
    Reports kill w (w.onMessage message fails throws) := by
  have still : Reports kill w (w,[]) :=
    ⟨fun none => (nomatch none),fun _ none => (nomatch none),fun _ same => same,unfinished,launches⟩
  unfold onMessage
  split
  · exact still
  · exact send_reports unfinished launches true throws (fun _ => asked rfl) (fun _ same => (nomatch same))
  · by_cases started : w.started = true
    · rw [if_pos started]
      exact still
    · rw [if_neg started]
      have idle : w.started = false := by simpa using started
      rw [idle] at launches
      have launches' : w.launches + 1 ≤ (true).toNat := Nat.succ_le_succ launches
      dsimp only
      cases fails with
      | none => exact ⟨fun none => (nomatch none),fun _ none => (nomatch none),fun _ same => same,unfinished,launches'⟩
      | some code =>
        have refused : Reports kill { w with started := true, launches := w.launches + 1 }
          (({ w with started := true, launches := w.launches + 1 } : Wrapper).refused code throws) :=
          refused_reports (w := { w with started := true, launches := w.launches + 1 }) unfinished launches' code throws
        exact { refused with }

end Wrapper

namespace Sound
variable {s : State} {weather : Weather}

theorem acted (sound : Sound s) {acts : Acts} (alive : s.alive = true)
    (reports : Reports (.signal .kill ∈ s.control.sent) s.wrapper acts) : Sound (s.acted acts) :=
  sound.acts (fun gone => by rw [alive] at gone; cases gone) reports.drains reports.results reports.kept
    reports.unfinished
    reports.launches
theorem fades (sound : Sound s) {w : Wrapper} (alive : s.alive = false → (w.alive || w.others) = false)
    (same : w.ended = s.wrapper.ended ∧ w.finishing = s.wrapper.finishing ∧ w.launches = s.wrapper.launches ∧
      w.started = s.wrapper.started) : Sound { s with wrapper := w } := by
  obtain ⟨ended,finishing,launches,started⟩ := same
  have acts : Sound (s.acted (w,[])) := sound.acts alive (fun none => (nomatch none)) (fun _ none => (nomatch none))
    (fun status same => ended.trans same) (fun isOpen => ended.trans (sound.unfinished (finishing.symm.trans isOpen)))
    (by rw [launches,started]; exact sound.launches)
  unfold State.acted at acts
  rw [List.append_nil] at acts
  exact acts
theorem step (sound : Sound s) (event : Event) (weather : Weather) : Sound (s.step event weather) := by
  have alive : s.wrapper.alive = true → s.alive = true := fun alive => by simp [State.alive,alive]
  cases event with
  | signal value => exact sound.signal value
  | report =>
    cases first : s.up with
    | nil => simpa only [State.step,first] using sound
    | cons message up => simpa only [State.step,first] using sound.report first
  | command fails =>
    cases first : s.down with
    | nil => simpa only [State.step,first] using sound
    | cons message down =>
      simp only [State.step,first]
      by_cases runs : s.wrapper.alive = true ∧ s.wrapper.begun = true
      · rw [if_pos runs]
        have taken : Sound { s with down } := { sound with
          down := fun other member => sound.down (by rw [first]; exact List.mem_cons_of_mem _ member) }
        refine taken.acted (alive runs.1) (Wrapper.onMessage_reports sound.unfinished sound.launches ?_ fails
          weather.throws)
        rintro rfl
        exact sound.down (by rw [first]; exact List.mem_cons_self)
      · rw [if_neg runs]
        exact sound
  | completes failed =>
    simp only [State.step,Control.completes]
    by_cases idle : s.control.pendingSends = 0
    · rw [if_pos idle]
      exact quiet rfl sound
    rw [if_neg idle]
    have done : Sound { s with control := { s.control with pendingSends := s.control.pendingSends - 1 } } :=
      { sound with
      resolved := fun status settled => absurd (sound.resolved status settled).2.2.2.1 idle }
    split_ifs
    · refine quiet ?_ done.fail
      rw [(Control.fail_settles _ _).frame]
    · exact quiet rfl done
  | flushed failed =>
    simp only [State.step]
    split_ifs with runs
    · have same : (s.wrapper.flushed failed).ended = s.wrapper.ended ∧
          (s.wrapper.flushed failed).finishing = s.wrapper.finishing ∧
          (s.wrapper.flushed failed).launches = s.wrapper.launches ∧
            (s.wrapper.flushed failed).started = s.wrapper.started := by
        unfold Wrapper.flushed
        split
        · exact ⟨rfl,rfl,rfl,rfl⟩
        · split_ifs <;> exact ⟨rfl,rfl,rfl,rfl⟩
      exact sound.fades (fun gone => by rw [alive runs] at gone; cases gone) same
    · exact sound
  | error =>
    simp only [State.step,Control.onError]
    split_ifs
    · exact quiet rfl sound
    · have errored : Sound { s with control := { s.control with errored := true } } := { sound with }
      refine quiet ?_ errored.fail
      rw [(Control.fail_settles _ _).frame]
  | exit =>
    simp only [State.step,Control.onExit]
    split_ifs
    · have dead : Sound { s with control := { s.control with live := false } } := { sound with piped := fun _ => rfl }
      refine quiet ?_ dead.observe
      rw [(Control.observe_settles _ _).frame]
    · exact sound
  | close =>
    simp only [State.step,Control.onClose]
    split_ifs with isOpen
    · have closed : Sound { s with control := { s.control with live := false, pipeClosed := true } } := { sound with
        piped := fun _ => rfl
        resolved := fun status settled => by
          have pipe := (sound.resolved status settled).2.2.1
          rw [isOpen.1] at pipe
          cases pipe }
      refine quiet ?_ closed.observe
      rw [(Control.observe_settles _ _).frame]
    · exact sound
  | disconnect =>
    simp only [State.step,Control.onDisconnect]
    split_ifs
    · exact sound
    · have closed : Sound { s with control := { s.control with channelClosed := true, connected := false } } :=
        { sound with }
      refine quiet ?_ closed.fail
      rw [(Control.fail_settles _ _).frame]
    · exact quiet rfl { sound with }
  | poll =>
    refine quiet ?_ (sound.settles (Control.poll_settles (s.reading weather) s.control))
    rw [(Control.poll_settles _ _).frame]
  | begins =>
    simp only [State.step]
    split_ifs with runs
    · have reports : Reports (.signal .kill ∈ s.control.sent) { s.wrapper with begun := true }
          (({ s.wrapper with begun := true } : Wrapper).send .ready false weather.throws) :=
        Wrapper.send_reports (w := { s.wrapper with begun := true }) sound.unfinished sound.launches false _
          (fun same => (nomatch same)) (fun _ same => (nomatch same))
      exact sound.acted (alive runs.1) { reports with }
    · exact sound
  | orphaned =>
    simp only [State.step]
    split_ifs with runs
    · exact sound.fades (fun _ => rfl) ⟨rfl,rfl,rfl,rfl⟩
    · exact sound
  | crash =>
    refine sound.fades (fun gone => ?_) ⟨rfl,rfl,rfl,rfl⟩
    simpa [State.alive] using (Bool.or_eq_false_iff.mp gone).2
  | spawned =>
    simp only [State.step]
    split_ifs with runs
    · exact sound.acted (alive runs.1) (Wrapper.send_reports sound.unfinished sound.launches false _
        (fun same => (nomatch same)) (fun _ same => (nomatch same)))
    · exact sound
  | refused code =>
    simp only [State.step]
    split_ifs with runs
    · exact sound.acted (alive runs.1) (Wrapper.refused_reports sound.unfinished sound.launches code _)
    · exact sound
  | ended status =>
    simp only [State.step]
    split_ifs with runs
    · exact sound.acted (alive runs.1) (Wrapper.result_reports sound.unfinished sound.launches status _)
    · exact sound
  | dies =>
    refine sound.fades (fun gone => ?_) ⟨rfl,rfl,rfl,rfl⟩
    simpa [State.alive] using (Bool.or_eq_false_iff.mp gone).1
  | lost kept =>
    simp only [State.step]
    split_ifs
    · exact sound
    · have less : s.up.take kept ⊆ s.up := List.take_subset _ _
      exact { sound with
        witness := fun drained => sound.witness (drained.imp_left (fun member => less member))
        results := fun status told => sound.results status (told.imp_left (fun member => less member)) }
theorem run (sound : Sound s) (events : List (Event × Weather)) : Sound (s.run events) := by
  induction events generalizing s with
  | nil => exact sound
  | cons event rest ih => exact ih (sound.step event.1 event.2)

end Sound

/-! ### What is settled -/

/-- What was decided stays so. -/
def Stays (c c' : Control) : Prop := ∀ outcome, c.settled = some outcome → c'.settled = some outcome

namespace Control
variable (reading : Reading)

theorem settles_stays {c c' : Control} (settles : Settles reading c c') : Stays c c' := by
  intro outcome settled
  rcases settles.settled with still | ⟨none,_⟩
  · exact still.trans settled
  · exact absurd (none.symm.trans settled) (by simp)
theorem send_stays (c : Control) (message : Command) : Stays c (c.send message reading) := by
  rcases send_cases reading c message with settles | ⟨_,sent⟩
  · exact settles_stays reading settles
  · rw [sent]
    exact fun _ settled => settled
theorem signal_stays (c : Control) (value : Signal) : Stays c (c.signal value reading) := by
  unfold signal
  by_cases idle : c.live = false ∨ c.connected = false ∨ c.killRequested = true ∨ c.draining = true
  · rw [if_pos idle]
    exact fun _ settled => settled
  rw [if_neg idle]
  intro outcome settled
  refine send_stays reading _ _ outcome ?_
  split_ifs
  · exact settles_stays reading (observe_settles reading _) outcome settled
  · exact settled
theorem onMessage_stays (c : Control) (message : Report) : Stays c (c.onMessage message reading) := by
  intro outcome settled
  unfold onMessage
  rw [if_pos (by simp [settled])]
  exact settled

end Control

namespace State

theorem step_stays (s : State) (event : Event) (weather : Weather) :
    Stays s.control (s.step event weather).control := by
  intro outcome settled
  have observed (c : Control) (same : c.settled = some outcome) :
      (c.observe (s.reading weather)).settled = some outcome :=
    Control.settles_stays _ (Control.observe_settles _ _) outcome same
  have failed (c : Control) (same : c.settled = some outcome) : (c.fail (s.reading weather)).settled = some outcome :=
    Control.settles_stays _ (Control.fail_settles _ _) outcome same
  cases event <;> simp only [step]
  case signal value => exact Control.signal_stays _ _ value outcome settled
  case report =>
    split
    · exact settled
    · exact Control.onMessage_stays _ _ _ outcome settled
  case command fails =>
    split
    · exact settled
    · split_ifs <;> exact settled
  case completes failed' =>
    unfold Control.completes controlled
    dsimp only
    split_ifs
    · exact settled
    · exact failed _ settled
    · exact settled
  case error =>
    unfold Control.onError controlled
    dsimp only
    split_ifs
    · exact settled
    · exact failed _ settled
  case exit =>
    split_ifs
    · exact observed _ settled
    · exact settled
  case close =>
    split_ifs
    · exact observed _ settled
    · exact settled
  case disconnect =>
    split_ifs
    · exact settled
    · unfold Control.onDisconnect controlled
      dsimp only
      split_ifs
      · exact failed _ settled
      · exact settled
  case poll => exact Control.settles_stays _ (Control.poll_settles _ _) outcome settled
  case crash => exact settled
  case dies => exact settled
  all_goals
    split_ifs <;> exact settled
theorem run_append (s : State) (before later : List (Event × Weather)) :
    s.run (before ++ later) = (s.run before).run later :=
  List.foldl_append
theorem run_settled {s : State} {outcome : Outcome} (settled : s.control.settled = some outcome)
    (events : List (Event × Weather)) : (s.run events).control.settled = some outcome := by
  induction events generalizing s with
  | nil => exact settled
  | cons event rest ih => exact ih (s.step_stays event.1 event.2 outcome settled)

end State

/-! ### The group is closed -/

/-- Whatever is sent, lost, refused or killed, and whenever: when the guardian takes the
    group for closed, no member of it is left then or ever after; the wrapper had been told
    to start at most once, and last of all to kill, and launched one worker at most, whose
    end is the one reported. -/
theorem closed_proved (pid : Bool) (events later : List (Event × Weather)) (status : Status)
    (settled : ((State.new pid).run events).control.settled = some (.resolved status)) :
    ((State.new pid).run (events ++ later)).alive = false ∧
    ((State.new pid).run (events ++ later)).control.settled = some (.resolved status) ∧
    (∃ earlier, ((State.new pid).run (events ++ later)).control.sent = earlier ++ [.signal .kill] ∧
      .signal .kill ∉ earlier) ∧
    ((State.new pid).run (events ++ later)).control.sent.count .start ≤ 1 ∧
    ((State.new pid).run (events ++ later)).wrapper.launches ≤ 1 ∧
    ((State.new pid).run (events ++ later)).control.pendingSends = 0 ∧
    (status = ⟨none,none⟩ ∨ ((State.new pid).run (events ++ later)).wrapper.ended = some status) := by
  have sound := (sound_new pid).run (events ++ later)
  have settled' : ((State.new pid).run (events ++ later)).control.settled = some (.resolved status) := by
    rw [State.run_append]
    exact State.run_settled settled later
  obtain ⟨gone,drained,_,sends,result⟩ := sound.resolved status settled'
  obtain ⟨earlier,after,split⟩ := List.append_of_mem (sound.witness (.inr drained))
  have last := sound.last earlier after split
  subst last
  refine ⟨gone,settled',⟨earlier,split,fun member => ?_⟩,sound.starts.trans (Bool.toNat_le _),
    sound.launches.trans (Bool.toNat_le _),sends,?_⟩
  · obtain ⟨first,rest,again⟩ := List.append_of_mem member
    have none := sound.last first (rest ++ [.signal .kill]) (by rw [split,again]; simp)
    simp at none
  · cases known : ((State.new pid).run (events ++ later)).control.status with
    | none =>
      rw [known] at result
      exact .inl result
    | some noted =>
      rw [known] at result
      exact .inr (result ▸ sound.results noted (.inr known))
/-- A worker that is started and ends by itself. -/
def ordinary : List (Event × Weather) :=
  [.begins,.report,.command none,.spawned,.report,.ended ⟨some 0,none⟩,.report,.command none,.report,.flushed false,
    .flushed false,
    .flushed false,.flushed false,.exit,.close,.completes false,.completes false,.poll].map (fun event =>
      (event,⟨0,false,false⟩))
theorem ordinary_proved : ((State.new true).run (ordinary ++ [(.disconnect,⟨9000,true,true⟩)])).alive = false ∧
    ((State.new true).run ordinary).control.settled = some (.resolved ⟨some 0,none⟩) := by
  have settled : ((State.new true).run ordinary).control.settled = some (.resolved ⟨some 0,none⟩) := by decide +kernel
  exact ⟨(closed_proved true ordinary [(.disconnect,⟨9000,true,true⟩)] ⟨some 0,none⟩ settled).1,settled⟩

end RelaySwarm.WorkerGroup
