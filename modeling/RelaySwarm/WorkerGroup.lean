import Mathlib.Algebra.Order.Ring.Rat

/-!
A broadcast worker in a process group of its own. The group is led by a wrapper, which
alone signals it; the guardian controls the wrapper over a channel of messages each way.
What the guardian takes for closed is closed: the group was asked to be killed, said so,
and no member is left.
-/
namespace RelaySwarm.WorkerGroup

inductive Signal where
  | term
  | kill
deriving DecidableEq
/-- How a worker ended, by its code or by a signal. -/
structure Status where
  code : Option Int
  signal : Option Nat
deriving DecidableEq
inductive Command where
  | start
  | signal (value : Signal)
deriving DecidableEq
inductive Report where
  | ready
  | spawn
  | error (code : Nat)
  | result (status : Status)
  | draining
deriving DecidableEq
/-- What probing the group says: no such process, a live one, or that it must not be asked. -/
inductive Probe where
  | absent
  | alive
  | denied
deriving DecidableEq

/-! ### The guardian's side -/

inductive Outcome where
  | resolved (status : Status)
  | rejected
deriving DecidableEq
structure Control where
  pid : Bool
  connected : Bool
  live : Bool
  pipeClosed : Bool
  channelClosed : Bool
  configured : Bool
  draining : Bool
  stopping : Bool
  killRequested : Bool
  errored : Bool
  uncertain : Bool
  observing : Bool
  status : Option Status
  deadline : Option ℚ
  settled : Option Outcome
  pendingSends : Nat
  /-- What was sent, and what the worker's owner was told. -/
  sent : List Command
  told : List Report
/-- What the system says during an event: the clock, a probe of the group, and whether a
    message cannot be sent. -/
structure Reading where
  now : ℚ
  probe : Probe
  throws : Bool

namespace Control

/-- One turn of the observation. -/
def poll (c : Control) (reading : Reading) : Control :=
  match c.settled,c.deadline with
  | none,some deadline =>
    if c.observing = false then c
    else if deadline ≤ reading.now then { c with settled := some .rejected, connected := false }
    else if c.pid = true ∧ reading.probe = .denied then { c with settled := some .rejected, connected := false }
    else
      let absent := if c.pid then decide (reading.probe = .absent) else c.pipeClosed
      if absent = true ∧ c.pipeClosed = true ∧ c.pendingSends = 0 then
        if c.uncertain = true ∨ c.draining = false then { c with settled := some .rejected, connected := false }
        else { c with settled := some (.resolved (c.status.getD ⟨none,none⟩)) }
      else c
  | _,_ => c
def observe (c : Control) (reading : Reading) : Control :=
  let c := { c with deadline := some (c.deadline.getD (reading.now + 5000)) }
  if c.observing then c else ({ c with observing := true } : Control).poll reading
def fail (c : Control) (reading : Reading) : Control :=
  ({ c with uncertain := true, connected := false } : Control).observe reading
/-- A message is sent, which is pending until the channel says how it went. -/
def send (c : Control) (message : Command) (reading : Reading) : Control :=
  if c.live = false ∨ c.connected = false then c
  else if reading.throws then (if c.settled.isSome then c else c.fail reading)
  else { c with pendingSends := c.pendingSends + 1, sent := c.sent ++ [message] }
/-- The first request to kill owns the remaining drain. -/
def signal (c : Control) (value : Signal) (reading : Reading) : Control :=
  if c.live = false ∨ c.connected = false ∨ c.killRequested = true ∨ c.draining = true then c
  else
    let c := { c with stopping := true }
    let c := if value = .kill then ({ c with killRequested := true } : Control).observe reading else c
    c.send (.signal value) reading
def onMessage (c : Control) (message : Report) (reading : Reading) : Control :=
  if c.pipeClosed = true ∨ c.channelClosed = true ∨ c.settled.isSome = true ∨ c.uncertain = true then c
  else
    match message with
    | .ready =>
      if c.configured then c
      else if c.stopping then c.signal .kill reading
      else ({ c with configured := true } : Control).send .start reading
    | .spawn => if c.configured then { c with told := c.told ++ [.spawn] } else c
    | .error code => if c.configured then { c with told := c.told ++ [.error code] } else c
    | .result status =>
      if c.configured = true ∧ c.status = none
        then ({ c with status := some status } : Control).signal .kill reading else c
    | .draining => if c.configured = true ∨ c.stopping = true then { c with draining := true } else c
/-- A message that was sent went, or did not. -/
def completes (c : Control) (failed : Bool) (reading : Reading) : Control :=
  if c.pendingSends = 0 then c
  else
    let c := { c with pendingSends := c.pendingSends - 1 }
    if failed = true ∧ c.settled = none then c.fail reading else c
def onError (c : Control) (reading : Reading) : Control :=
  if c.errored then c else ({ c with errored := true } : Control).fail reading
def onExit (c : Control) (reading : Reading) : Control := ({ c with live := false } : Control).observe reading
def onClose (c : Control) (reading : Reading) : Control :=
  ({ c with live := false, pipeClosed := true } : Control).observe reading
def onDisconnect (c : Control) (reading : Reading) : Control :=
  let c := { c with channelClosed := true, connected := false }
  if c.live = true ∧ c.draining = false ∧ c.settled = none then c.fail reading else c

end Control

/-- The wrapper is forked; it has no process when that fails. -/
def controlWorkerGroup (pid : Bool) : Control :=
  ⟨pid,pid,true,false,false,false,false,false,false,false,false,false,none,none,none,0,[],[]⟩

/-! ### The wrapper's side -/

structure Wrapper where
  alive : Bool
  connected : Bool
  begun : Bool
  started : Bool
  finishing : Bool
  killing : Bool
  /-- The messages whose sending is not done, by whether the group is killed when it is. -/
  sending : List Bool
  /-- The other members of the group, the worker and what it started. -/
  others : Bool
  launches : Nat
  ended : Option Status

/-- The wrapper, and what it sent in this event. -/
abbrev Acts := Wrapper × List Report

namespace Wrapper

def kill (w : Wrapper) : Wrapper := { w with killing := true, alive := false, others := false }
def send (w : Wrapper) (message : Report) (kills throws : Bool) : Acts :=
  if w.connected = false ∨ throws = true then (w.kill,[]) else ({ w with sending := w.sending ++ [kills] },[message])
def result (w : Wrapper) (status : Status) (throws : Bool) : Acts :=
  if w.finishing then (w,[]) else ({ w with finishing := true, ended := some status } : Wrapper).send (.result status)
    false throws
/-- The worker cannot be launched. -/
def refused (w : Wrapper) (code : Nat) (throws : Bool) : Acts :=
  let told := w.send (.error code) false throws
  let ended := told.1.result ⟨none,none⟩ throws
  if told.1.alive then (ended.1,told.2 ++ ended.2) else told
/-- The worker is launched, unless that fails with a code. -/
def onMessage (w : Wrapper) (message : Command) (fails : Option Nat) (throws : Bool) : Acts :=
  match message with
  | .signal .term => (w,[])
  | .signal .kill => w.send .draining true throws
  | .start =>
    if w.started then (w,[])
    else
      let w := { w with started := true, launches := w.launches + 1 }
      match fails with
      | some code => w.refused code throws
      | none => ({ w with others := true },[])
/-- A message was sent, or was not. -/
def flushed (w : Wrapper) (failed : Bool) : Wrapper :=
  match w.sending with
  | [] => w
  | kills :: sending => if failed = true ∨ kills = true then ({ w with sending } : Wrapper).kill else { w with sending }

end Wrapper

/-! ### The two together -/

structure State where
  control : Control
  wrapper : Wrapper
  /-- What is on its way, oldest first. -/
  down : List Command
  up : List Report

def State.new (pid : Bool) : State :=
  ⟨controlWorkerGroup pid,⟨pid,pid,false,false,false,false,[],false,0,none⟩,[],[]⟩

inductive Event where
  /-- The worker's owner has it signalled. -/
  | signal (value : Signal)
  /-- A message comes to the guardian, or to the wrapper. -/
  | report
  | command (fails : Option Nat)
  /-- The channel says how a message went. -/
  | completes (failed : Bool)
  | flushed (failed : Bool)
  /-- The guardian is told of its child. -/
  | error
  | exit
  | close
  | disconnect
  | poll
  /-- The wrapper begins, its channel closes, or it is gone without a word. -/
  | begins
  | orphaned
  | crash
  /-- The worker says it was spawned, fails or ends. -/
  | spawned
  | refused (code : Nat)
  | ended (status : Status)
  /-- The other members of the group end. -/
  | dies
  /-- What the wrapper sent last is lost when it is gone. -/
  | lost (kept : Nat)
/-- The clock, whether the group must not be probed, and whether messages cannot be sent. -/
structure Weather where
  now : ℚ
  denied : Bool
  throws : Bool

namespace State

def alive (s : State) : Bool := s.wrapper.alive || s.wrapper.others
def reading (s : State) (weather : Weather) : Reading :=
  ⟨weather.now,if weather.denied then .denied else if s.alive then .alive else .absent,weather.throws⟩
/-- What the guardian does, and what it sends by it. -/
def controlled (s : State) (control : Control) : State :=
  { s with control, down := s.down ++ control.sent.drop s.control.sent.length }
def acted (s : State) (acts : Acts) : State := { s with wrapper := acts.1, up := s.up ++ acts.2 }

def step (s : State) (event : Event) (weather : Weather) : State :=
  let reading := s.reading weather
  match event with
  | .signal value => s.controlled (s.control.signal value reading)
  | .report =>
    match s.up with
    | [] => s
    | message :: up => ({ s with up } : State).controlled (s.control.onMessage message reading)
  | .command fails =>
    match s.down with
    | [] => s
    | message :: down =>
      if s.wrapper.alive = true ∧ s.wrapper.begun = true then
        ({ s with down } : State).acted (s.wrapper.onMessage message fails weather.throws)
      else s
  | .completes failed => s.controlled (s.control.completes failed reading)
  | .flushed failed => if s.wrapper.alive then { s with wrapper := s.wrapper.flushed failed } else s
  | .error => s.controlled (s.control.onError reading)
  | .exit => if s.control.live = true ∧ s.wrapper.alive = false then s.controlled (s.control.onExit reading) else s
  | .close =>
    if s.control.pipeClosed = false ∧ (s.control.live = false ∨ s.control.pid = false) then
      s.controlled (s.control.onClose reading)
    else s
  | .disconnect => if s.control.channelClosed then s else s.controlled (s.control.onDisconnect reading)
  | .poll => s.controlled (s.control.poll reading)
  | .begins =>
    if s.wrapper.alive = true ∧ s.wrapper.begun = false then
      s.acted (({ s.wrapper with begun := true } : Wrapper).send .ready false weather.throws)
    else s
  | .orphaned =>
    if s.wrapper.alive then { s with wrapper := ({ s.wrapper with connected := false } : Wrapper).kill } else s
  | .crash => { s with wrapper := { s.wrapper with alive := false } }
  | .spawned =>
    if s.wrapper.alive = true ∧ s.wrapper.launches = 1 then s.acted (s.wrapper.send .spawn false weather.throws) else s
  | .refused code =>
    if s.wrapper.alive = true ∧ s.wrapper.launches = 1 then s.acted (s.wrapper.refused code weather.throws) else s
  | .ended status =>
    if s.wrapper.alive = true ∧ s.wrapper.launches = 1 then s.acted (s.wrapper.result status weather.throws) else s
  | .dies => { s with wrapper := { s.wrapper with others := false } }
  | .lost kept => if s.wrapper.alive then s else { s with up := s.up.take kept }
def run (events : List (Event × Weather)) (s : State) : State := events.foldl (fun s event => s.step event.1 event.2) s

end State

/-! ### What the guardian observes -/

/-- The group is proved stopped. -/
structure Proved (reading : Reading) (c : Control) : Prop where
  absent : (c.pid = true → reading.probe = .absent) ∧ c.pipeClosed = true
  sends : c.pendingSends = 0
  draining : c.draining = true
/-- Observing may settle what is not settled, and leaves what was sent and what came. -/
structure Settles (reading : Reading) (c c' : Control) : Prop where
  frame : c' = { c with
    connected := c'.connected, uncertain := c'.uncertain, observing := c'.observing, deadline := c'.deadline,
    settled := c'.settled }
  settled : c'.settled = c.settled ∨ c.settled = none ∧ (c'.settled = some .rejected ∨
    Proved reading c ∧ c'.settled = some (.resolved (c.status.getD ⟨none,none⟩)))

namespace Control
variable (reading : Reading)

theorem poll_settles (c : Control) : Settles reading c (c.poll reading) := by
  have still : Settles reading c c := ⟨rfl,.inl rfl⟩
  unfold poll
  split
  · rename_i deadline settled _
    have rejects : Settles reading c { c with settled := some .rejected, connected := false } :=
      ⟨rfl,.inr ⟨settled,.inl rfl⟩⟩
    by_cases idle : c.observing = false
    · rw [if_pos idle]
      exact still
    rw [if_neg idle]
    by_cases late : deadline ≤ reading.now
    · rw [if_pos late]
      exact rejects
    rw [if_neg late]
    by_cases denied : c.pid = true ∧ reading.probe = .denied
    · rw [if_pos denied]
      exact rejects
    rw [if_neg denied]
    dsimp only
    by_cases gone : (if c.pid = true then decide (reading.probe = .absent) else c.pipeClosed) = true ∧
      c.pipeClosed = true ∧
        c.pendingSends = 0
    · rw [if_pos gone]
      by_cases unknown : c.uncertain = true ∨ c.draining = false
      · rw [if_pos unknown]
        exact rejects
      · rw [if_neg unknown]
        refine ⟨rfl,.inr ⟨settled,.inr ⟨⟨⟨fun pid => ?_,gone.2.1⟩,gone.2.2,?_⟩,rfl⟩⟩⟩
        · have absent := gone.1
          rw [if_pos pid] at absent
          exact of_decide_eq_true absent
        · simpa using (not_or.mp unknown).2
    · rw [if_neg gone]
      exact still
  · exact still
theorem settles_edit {c edited c' : Control} (settles : Settles reading edited c')
    (frame : ({ edited with
      connected := c'.connected, uncertain := c'.uncertain, observing := c'.observing, deadline := c'.deadline,
      settled := c'.settled } : Control) = { c with
      connected := c'.connected, uncertain := c'.uncertain, observing := c'.observing, deadline := c'.deadline,
      settled := c'.settled })
    (same : edited.settled = c.settled) : Settles reading c c' := by
  have parts : edited.pid = c.pid ∧ edited.pipeClosed = c.pipeClosed ∧ edited.pendingSends = c.pendingSends ∧
      edited.draining = c.draining ∧ edited.status = c.status := by
    rw [Control.mk.injEq] at frame
    obtain ⟨pid,_,_,pipe,_,_,draining,_,_,_,_,_,status,_,_,sends,_,_⟩ := frame
    exact ⟨pid,pipe,sends,draining,status⟩
  obtain ⟨pid,pipe,sends,draining,status⟩ := parts
  refine ⟨settles.frame.trans frame,?_⟩
  rcases settles.settled with still | ⟨isOpen,rejected | ⟨proved,resolved⟩⟩
  · exact .inl (still.trans same)
  · exact .inr ⟨same.symm.trans isOpen,.inl rejected⟩
  · refine .inr ⟨same.symm.trans isOpen,.inr ⟨⟨?_,?_,?_⟩,?_⟩⟩
    · rw [← pid,← pipe]
      exact proved.absent
    · rw [← sends]
      exact proved.sends
    · rw [← draining]
      exact proved.draining
    · rw [← status]
      exact resolved
theorem observe_settles (c : Control) : Settles reading c (c.observe reading) := by
  unfold observe
  dsimp only
  by_cases observing : c.observing = true
  · rw [if_pos observing]
    exact ⟨rfl,.inl rfl⟩
  · rw [if_neg observing]
    exact settles_edit reading (poll_settles reading _) rfl rfl
theorem fail_settles (c : Control) : Settles reading c (c.fail reading) :=
  settles_edit reading (observe_settles reading _) rfl rfl

theorem send_cases (c : Control) (message : Command) : Settles reading c (c.send message reading) ∨ c.live = true ∧
    c.send message reading = { c with pendingSends := c.pendingSends + 1, sent := c.sent ++ [message] } := by
  unfold send
  by_cases gone : c.live = false ∨ c.connected = false
  · rw [if_pos gone]
    exact .inl ⟨rfl,.inl rfl⟩
  rw [if_neg gone]
  by_cases throws : reading.throws = true
  · rw [if_pos throws]
    split_ifs
    · exact .inl ⟨rfl,.inl rfl⟩
    · exact .inl (fail_settles reading c)
  · rw [if_neg throws]
    exact .inr ⟨by simpa using (not_or.mp gone).1,rfl⟩

end Control

end RelaySwarm.WorkerGroup
