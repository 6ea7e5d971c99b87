import Mathlib
import RelaySwarm.WorkerGroupRuns

/-!
The guardians of a publisher's workers. A guardian holds the lease, makes the dirty marker
before the first worker and removes it after the last; its publisher may go at any time, as
may the guardian itself, whose workers then outlive it. Each publisher forks a guardian of
its own.
-/
namespace RelaySwarm.Guardians
open WorkerGroup (Signal Weather)

/-- How far a guardian's start has come: what is awaited. -/
inductive Startup where
  | acquiring
  | checking
  | creating
  | writing
  | syncing
  | closing (failed : Bool)
  | openingDirectory
  | syncingDirectory
  | closingDirectory (failed : Bool)
  | finished
deriving DecidableEq
/-- How far its stop has. -/
inductive Stop where
  | uncalled
  | waiting
  | draining (live : List Nat)
  | removing
  | openingDirectory
  | syncingDirectory
  | closingDirectory (failed : Bool)
  | releasing (failed : Bool)
  | acknowledging
  | finished (failed : Bool)
deriving DecidableEq
/-- How what is awaited ends. The lease may be busy when it is asked for; and what fails
    to close it may let it go. -/
inductive Outcome where
  | done
  | busy
  | failed
deriving DecidableEq
/-- What a publisher tells its guardian, and is told. -/
inductive Order where
  | start (id : String)
  | kill (id : String) (signal : Signal)
  | stop
deriving DecidableEq
inductive Reply where
  | ready
  | failed
  | stopped
  | spawn (id : String)
  | error (id : String) (code : Nat)
  | close (id : String) (code : Option Int)
deriving DecidableEq
/-- A worker, while it is on file and after; how its group was found closed, when that is known. -/
structure Worker where
  id : String
  filed : Bool
  closed : Option Bool
  group : WorkerGroup.State
/-- The publisher's side. -/
structure Client where
  linked : Bool
  startupComplete : Bool
  closing : Bool
  stoppedAcknowledged : Bool
  nextId : Nat
structure Guardian where
  alive : Bool
  connected : Bool
  startup : Startup
  lease : Bool
  marked : Bool
  stopping : Bool
  stop : Stop
  exitCode : Bool
  workers : List Worker
  client : Client
  down : List Order
  up : List Reply
  /-- Whether it ended by itself with no failure, once it has. -/
  ended : Option Bool

namespace Client

def new : Client := ⟨true,false,false,false,0⟩

end Client

namespace Worker

/-- The group's part of what is told to the publisher. -/
def tells (id : String) : WorkerGroup.Report → Option Reply
  | .spawn => some (.spawn id)
  | .error code => some (.error id code)
  | _ => none
def step (w : Worker) (event : WorkerGroup.Event) (weather : Weather) : Worker :=
  { w with group := w.group.step event weather }
def told (w w' : Worker) : List Reply :=
  (w'.group.control.told.drop w.group.control.told.length).filterMap (tells w.id)

end Worker

namespace Guardian

def new : Guardian := ⟨true,true,.acquiring,false,false,false,.uncalled,false,[],.new,[],[],none⟩
def send (x : Guardian) (replies : List Reply) : Guardian := if x.connected then { x with up := x.up ++ replies } else x
def calls (x : Guardian) : Guardian := if x.stop = .uncalled then { x with stopping := true, stop := .waiting } else x
/-- The start is done: what was to be stopped meanwhile is. -/
def prepares (x : Guardian) : Guardian :=
  let x := { x with startup := .finished }
  if x.stopping = true ∨ x.connected = false then x.calls else x.send [.ready]
def fails (x : Guardian) : Guardian :=
  (({ x with startup := .finished, exitCode := true } : Guardian).send [.failed]).calls
/-- What the start awaited is over: the marker is made by one that finds none. -/
def starts (g : Nat) (x : Guardian) (free : Bool) (marker : Option Nat) (outcome : Outcome) : Guardian × Option Nat :=
  match x.startup with
  | .acquiring =>
    match outcome with
    | .done => (if free then { x with lease := true, startup := .checking } else x,marker)
    | .busy => (if x.stopping then x.prepares else x,marker)
    | .failed => (x.fails,marker)
  | .checking => (if outcome = .done ∧ marker = none then { x with startup := .creating } else x.fails,marker)
  | .creating =>
    if outcome = .done ∧ marker = none then ({ x with startup := .writing },some g) else (x.fails,marker)
  | .writing => ({ x with startup := if outcome = .done then .syncing else .closing true },marker)
  | .syncing =>
    (if outcome = .done then { x with marked := true, startup := .closing false }
      else { x with startup := .closing true },marker)
  | .closing failed =>
    (if outcome = .done ∧ failed = false then { x with startup := .openingDirectory } else x.fails,marker)
  | .openingDirectory => (if outcome = .done then { x with startup := .syncingDirectory } else x.fails,marker)
  | .syncingDirectory => ({ x with startup := .closingDirectory (outcome ≠ .done) },marker)
  | .closingDirectory failed => (if outcome = .done ∧ failed = false then x.prepares else x.fails,marker)
  | .finished => (x,marker)

def live (x : Guardian) : List Nat := (x.workers.zipIdx.filter (fun entry => entry.1.filed)).map (·.2)
def signals (x : Guardian) (live : List Nat) (value : Signal) (weather : Nat → Weather) : Guardian :=
  { x with workers := x.workers.mapIdx (fun i w => if i ∈ live then w.step (.signal value) (weather i) else w) }
/-- The stop fails, and says so; one that a group's failure called for leaves its publisher. -/
def breaks (x : Guardian) : Guardian :=
  let x := ({ x with stop := .finished true, exitCode := true } : Guardian).send [.failed]
  if x.workers.any (fun w => w.filed && w.closed == some false) then { x with connected := false } else x
/-- What the stop awaited is over: the marker is removed when every worker was found closed. -/
def unwinds (x : Guardian) (marker : Option Nat) (outcome : Outcome) (weather : Nat → Weather) :
    Guardian × Option Nat :=
  match x.stop with
  | .uncalled => (x,marker)
  | .waiting =>
    if x.startup = .finished then ({ x.signals x.live .term weather with stop := .draining x.live },marker)
      else (x,marker)
  | .draining live =>
    let closed := live.map (fun i => (x.workers[i]?).bind (·.closed))
    if none ∈ closed then (x,marker)
    else if some false ∈ closed then ({ x with stop := .releasing true },marker)
    else ({ x with stop := if x.marked then .removing else .releasing false },marker)
  | .removing =>
    if outcome = .done ∧ marker ≠ none then ({ x with stop := .openingDirectory },none)
    else ({ x with stop := .releasing true },marker)
  | .openingDirectory => ({ x with stop := if outcome = .done then .syncingDirectory else .releasing true },marker)
  | .syncingDirectory => ({ x with stop := .closingDirectory (outcome ≠ .done) },marker)
  | .closingDirectory failed => ({ x with stop := .releasing (failed || outcome ≠ .done) },marker)
  | .releasing failed =>
    match outcome with
    | .done => (if failed then ({ x with lease := false } : Guardian).breaks
      else { x with lease := false, stop := .acknowledging },marker)
    | .busy => (({ x with lease := false } : Guardian).breaks,marker)
    | .failed => (x.breaks,marker)
  | .acknowledging => ({ x.send [.stopped] with stop := .finished false, connected := false },marker)
  | .finished _ => (x,marker)

/-- An order of the publisher's is taken. A worker is forked, or is not. -/
def takes (x : Guardian) (order : Order) (pid : Bool) (weather : Weather) : Guardian :=
  if order = .stop then x.calls
  else if x.stopping = true ∨ x.lease = false ∨ x.connected = false then x
  else
    match order with
    | .kill id value => { x with
        workers := x.workers.map (fun w => if w.filed = true ∧ w.id = id then w.step (.signal value) weather else w) }
    | .start id =>
      let filed := x.workers.filter (·.filed)
      if filed.any (·.id = id) = true ∨ 4 ≤ filed.length then x
      else { x with workers := x.workers ++ [⟨id,true,none,.new pid⟩] }
    | .stop => x
/-- A group was found closed or could not be: the worker is struck off, or the guardian stops. -/
def notes (x : Guardian) (i : Nat) (throws : Bool) : Guardian :=
  match x.workers[i]? with
  | none => x
  | some w =>
    match w.closed,w.group.control.settled with
    | none,some (.resolved status) =>
      if throws then
        ({ x with workers := x.workers.set i { w with filed := false, closed := some false } } : Guardian).send
          [.failed]
      else ({ x with workers := x.workers.set i { w with filed := false, closed := some true } } : Guardian).send
        [.close w.id status.code]
    | none,some .rejected =>
      let x := (({ x with workers := x.workers.set i { w with closed := some false } } : Guardian).send [.failed]).calls
      if x.stop = .finished true then { x with connected := false } else x
    | _,_ => x
/-- What happens to a group; the guardian's part of it only while there is one. -/
def happens (x : Guardian) (i : Nat) (event : WorkerGroup.Event) (weather : Weather) : Guardian :=
  match x.workers[i]? with
  | none => x
  | some w =>
    let goes :=
      ({ x with workers := x.workers.set i (w.step event weather) } : Guardian).send (w.told (w.step event weather))
    match event with
    | .signal _ => x
    | .report | .completes _ | .error | .exit | .close | .disconnect | .poll => if x.alive then goes else x
    | .command _ | .flushed _ | .begins | .orphaned | .crash | .spawned | .refused _ | .ended _ | .dies | .lost _ =>
      { x with workers := x.workers.set i (w.step event weather) }

/-! ### The publisher's part -/

def tell (x : Guardian) (order : Order) : Guardian :=
  if x.client.linked then { x with down := x.down ++ [order] } else x
/-- It closes its guardian, or gives up waiting for it to be ready. -/
def closes (x : Guardian) : Guardian :=
  if x.client.closing then x else ({ x with client := { x.client with closing := true } } : Guardian).tell .stop
def spawns (x : Guardian) : Guardian :=
  if x.client.startupComplete then
    let x := { x with client := { x.client with nextId := x.client.nextId + 1 } }
    if x.client.closing then x else x.tell (.start (toString x.client.nextId))
  else x
def hears (x : Guardian) (reply : Reply) : Guardian :=
  match reply with
  | .ready => if x.client.closing then x else { x with client := { x.client with startupComplete := true } }
  | .failed => if x.client.startupComplete then x else x.closes
  | .stopped => { x with client := { x.client with stoppedAcknowledged := true } }
  | _ => x
def verified (x : Guardian) : Bool := x.client.closing && x.client.stoppedAcknowledged && x.ended == some true

end Guardian

/-! ### All of them -/

structure System where
  guardians : List Guardian
  /-- The dirty marker, by the guardian that made it. -/
  marker : Option Nat
inductive Act where
  | starts (outcome : Outcome)
  | unwinds (outcome : Outcome) (weather : Nat → Weather)
  | takes (pid : Bool) (weather : Weather)
  | group (i : Nat) (event : WorkerGroup.Event) (weather : Weather)
  | notes (i : Nat) (throws : Bool)
  /-- It is told to end, or is left by its publisher, or its workers are to be killed. -/
  | terminates
  | disconnects
  | forces (weather : Nat → Weather)
  /-- It ends by itself, or is gone without a word. -/
  | exits
  | crash
  /-- Its publisher closes it, has a worker spawned or killed, hears from it, or is gone. -/
  | closes
  | spawns
  | kills (id : String) (signal : Signal)
  | hears
  | leaves
  /-- What it sent last is lost when it is gone. -/
  | lost (kept : Nat)
inductive Event where
  | forks
  | guardian (g : Nat) (act : Act)
  /-- The operator clears the marker when nobody is left. -/
  | recovers

namespace Guardian

def act (g : Nat) (x : Guardian) (free : Bool) (marker : Option Nat) : Act → Guardian × Option Nat
  | .starts outcome => if x.alive then x.starts g free marker outcome else (x,marker)
  | .unwinds outcome weather => if x.alive then x.unwinds marker outcome weather else (x,marker)
  | .takes pid weather =>
    match x.down with
    | [] => (x,marker)
    | order :: down => (if x.alive then ({ x with down } : Guardian).takes order pid weather else x,marker)
  | .group i event weather => (x.happens i event weather,marker)
  | .notes i throws => (if x.alive then x.notes i throws else x,marker)
  | .terminates => (if x.alive then x.calls else x,marker)
  | .disconnects => (if x.alive then ({ x with connected := false } : Guardian).calls else x,marker)
  | .forces weather =>
    match x.stop with
    | .draining live => (if x.alive then x.signals live .kill weather else x,marker)
    | _ => (x,marker)
  | .exits =>
    match x.stop with
    | .finished _ =>
      (if x.alive = true ∧ x.connected = false
        then { x with alive := false, lease := false, ended := some (!x.exitCode) } else x,marker)
    | _ => (x,marker)
  | .crash =>
    (if x.alive then { x with alive := false, connected := false, lease := false, ended := some false } else x,marker)
  | .closes => (x.closes,marker)
  | .spawns => (x.spawns,marker)
  | .kills id value => (x.tell (.kill id value),marker)
  | .hears =>
    match x.up with
    | [] => (x,marker)
    | reply :: up => (({ x with up } : Guardian).hears reply,marker)
  | .leaves => ({ x with client := { x.client with linked := false } },marker)
  | .lost kept => (if x.alive then x else { x with up := x.up.take kept },marker)

end Guardian

namespace System

def new : System := ⟨[],none⟩
def free (s : System) : Bool := !s.guardians.any (fun x => x.alive && x.lease)
def step (s : System) : Event → System
  | .forks => { s with guardians := s.guardians ++ [.new] }
  | .guardian g act =>
    match s.guardians[g]? with
    | none => s
    | some x => ⟨s.guardians.set g (x.act g s.free s.marker act).1,(x.act g s.free s.marker act).2⟩
  | .recovers =>
    if s.guardians.any (fun x => x.alive || x.workers.any (fun w => w.group.alive)) then s
      else { s with marker := none }
def run (events : List Event) (s : System) : System := events.foldl step s

end System
end RelaySwarm.Guardians
