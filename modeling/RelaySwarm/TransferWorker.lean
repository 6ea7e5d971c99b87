import RelaySwarm.TransferWorkerArguments
import Mathlib.Logic.Function.Basic

/-!
The page's end of a transfer worker and the worker's own, joined by two queues, after the
worker is set up. The page opens a handle for a transfer, makes its calls and frees it; a
handle is let go when the worker has answered. Promises that are settled wait until the
code behind them is run, and that may be in any order. Numbers of requests and handles are
exact, and the worker's module does not fail.
-/
namespace RelaySwarm.TransferWorker
open JsonText

/-- The transfers of the worker's module. What one answers is a matter of its
    configuration and of the calls it was given, this one last. -/
structure Core where
  accepts : Config → Bool
  answer : Config → List Arguments → TransferFrame.Reply
  valid : ∀ config calls, validFrame (answer config calls) config.size = true

inductive Code where
  | closed
  | queueLimit
  | aborted
  | closedTransfer
  | invalidTransfer
  | transferLimit
  | invalidOperation
  | invalidResponse
  | invalidHandle
  | unknownTransfer
  | operationTimeout
  | workerError
  | workerMessage
deriving DecidableEq

/-- What is promised to a caller: a transfer, the frame of a call, that a handle is free. -/
inductive Promise where
  | transfer (n : Nat)
  | call (n : Nat)
  | release (handle : Nat)
deriving DecidableEq
/-- What goes on when a request is settled. -/
inductive Await where
  | new (n handle : Nat)
  | call (n handle : Nat)
  | free (handle : Nat)
deriving DecidableEq
def Await.handle : Await → Nat
  | .new _ handle => handle
  | .call _ handle => handle
  | .free handle => handle
def Await.promise : Await → Promise
  | .new n _ => .transfer n
  | .call n _ => .call n
  | .free handle => .release handle
inductive Outcome where
  | done
  | frame (frame : TransferFrame.Reply)
  | error (code : Code)

inductive Body where
  | new (config : Config)
  | call (arguments : Arguments)
  | free
/-- A request, and what awaits its answer on the page. -/
structure Message where
  id : Nat
  handle : Nat
  body : Body
  awaits : Await
structure Answer where
  message : Message
  outcome : Outcome
structure Entry where
  id : Nat
  awaits : Await
  bytes : Nat
  size : Nat
  settled : Bool
/-- A handle of the page, and whether its transfer was handed to the caller. -/
structure Record where
  config : Config
  signal : Option Nat
  closed : Bool
  released : Bool
  opened : Bool
def Record.size (record : Record) : Nat := record.config.size
/-- A handle of the worker, with the calls that its transfer was given. -/
structure Session where
  handle : Nat
  config : Config
  calls : List Arguments

inductive Phase where
  | ready
  | failed
  | stopped
deriving DecidableEq

structure State where
  phase : Phase
  reason : Option Code
  nextRequest : Nat
  nextHandle : Nat
  pendingBytes : Nat
  activeBytes : Nat
  pending : List Entry
  handles : List Nat
  records : Nat → Option Record
  /-- The signals that were aborted. -/
  aborted : List Nat
  /-- Requests that are settled and what awaits them has not gone on. -/
  waiting : List (Await × Outcome)
  /-- The two queues, oldest first. -/
  requests : List Message
  answers : List Answer
  live : List Session
  liveBytes : Nat
  /-- The calls made so far, and the promises given for them and kept. -/
  calls : Nat
  issued : List Promise
  outcomes : List (Promise × Outcome)
  /-- The requests sent, and those the worker handled. -/
  sent : List Message
  handled : List Answer

/-- The worker has answered its first request. -/
def State.new : State :=
  ⟨.ready,none,1,0,0,0,[],[],fun _ => none,[],[],[],[],[],0,0,[],[],[],[]⟩

/-! ### The page -/

namespace State

def sizeOf (s : State) (handle : Nat) : Nat := ((s.records handle).map Record.size).getD 0
def closedAt (s : State) (handle : Nat) : Bool := ((s.records handle).map Record.closed).getD true
def editRecord (s : State) (handle : Nat) (edit : Record → Record) : State :=
  { s with records := Function.update s.records handle ((s.records handle).map edit) }
def settle (s : State) (promise : Promise) (outcome : Outcome) : State :=
  { s with outcomes := s.outcomes ++ [(promise,outcome)] }
def reject (s : State) (awaits : Await) (code : Code) : State :=
  { s with waiting := s.waiting ++ [(awaits,.error code)] }

/-- The handle is let go, once. -/
def release (s : State) (handle : Nat) : State :=
  if handle ∈ s.handles then
    { s with handles := s.handles.erase handle, activeBytes := s.activeBytes - s.sizeOf handle }
  else s
/-- The page is done with the worker, which is gone with its queues. -/
def retire (s : State) (code : Code) (notify : Bool) : State :=
  if s.phase ≠ .ready then s
  else
    let emptied := { s with
      phase := if notify then .failed else .stopped
      reason := some code
      waiting :=
        s.waiting ++ (s.pending.filter (fun entry => !entry.settled)).map (fun entry => (entry.awaits,.error code))
      pending := []
      pendingBytes := 0
      requests := []
      answers := []
      live := []
      liveBytes := 0 }
    s.handles.foldl (fun s handle =>
      (s.editRecord handle (fun record => { record with closed := true })).release handle)
      emptied

section
variable (limits : Limits)

/-- A request is sent, unless the worker is gone or too much waits for it; a request to
    free a handle has a place of its own. -/
def rpc (s : State) (awaits : Await) (body : Body) (bytes : Nat) (control : Bool) : State :=
  if s.phase ≠ .ready then s.reject awaits .closed
  else if (control = false ∧ limits.maxPending ≤ s.pending.length) ∨
    limits.maxPendingBytes < s.pendingBytes + bytes then
    s.reject awaits .queueLimit
  else
    let id := s.nextRequest + 1
    let size := if awaits.handle ∈ s.handles then s.sizeOf awaits.handle else limits.maxSegmentBytes
    let message := ⟨id,awaits.handle,body,awaits⟩
    { s with
      nextRequest := id
      pending := s.pending ++ [⟨id,awaits,bytes,size,false⟩]
      pendingBytes := s.pendingBytes + bytes
      requests := s.requests ++ [message]
      sent := s.sent ++ [message] }
/-- What waits for the handle is rejected; its requests stay until they are answered. -/
def closeHandle (s : State) (handle : Nat) : State :=
  let closing := s.editRecord handle (fun record => { record with closed := true, released := true })
  { closing with
    pending :=
      s.pending.map (fun entry => if entry.awaits.handle = handle then { entry with settled := true } else entry)
    waiting := s.waiting ++ (s.pending.filter (fun entry => entry.awaits.handle = handle ∧ entry.settled = false)).map
      (fun entry => (entry.awaits,.error .aborted))
    issued := s.issued ++ [Promise.release handle] }
/-- The handle is freed, once. -/
def free (s : State) (handle : Nat) : State :=
  match s.records handle with
  | none => s
  | some record => if record.released then s else (s.closeHandle handle).rpc limits (.free handle) .free 0 true

def opens (s : State) (config : Config) (signal : Option Nat) : State :=
  { s with
    nextHandle := s.nextHandle + 1
    records := Function.update s.records (s.nextHandle + 1) (some ⟨config,signal,false,false,false⟩)
    handles := s.handles ++ [s.nextHandle + 1]
    activeBytes := s.activeBytes + config.size }
def transfer (s : State) (value : Option Value) (signal : Option Nat) : State :=
  let n := s.calls
  let s := { s with calls := n + 1, issued := s.issued ++ [Promise.transfer n] }
  if s.phase ≠ .ready then s.settle (.transfer n) (.error .closed)
  else if ∃ g ∈ signal, g ∈ s.aborted then s.settle (.transfer n) (.error .aborted)
  else
    match workerConfig value limits with
    | none => s.settle (.transfer n) (.error .invalidTransfer)
    | some config =>
      if limits.maxTransfers ≤ s.handles.length ∨ limits.maxActiveBytes < s.activeBytes + config.size then
        s.settle (.transfer n) (.error .transferLimit)
      else (s.opens config signal).rpc limits (.new n (s.nextHandle + 1)) (.new config) 0 false
/-- The bytes that a call carries. -/
def carried : Arguments → Nat
  | .delivered _ _ _ _ bytes => bytes.length
  | _ => 0
/-- A call of a transfer; one that cannot be made frees the handle. -/
def call (s : State) (handle : Nat) (record : Record) (op : Op) (raw : Raw) : State :=
  let n := s.calls
  let s := { s with calls := n + 1, issued := s.issued ++ [Promise.call n] }
  if record.closed then s.settle (.call n) (.error .closedTransfer)
  else
    match workerArguments op raw limits.maxSegmentBytes record.config.peerOnly with
    | none => (s.free limits handle).settle (.call n) (.error .invalidOperation)
    | some arguments =>
      if op = .delivered ∧ limits.maxPendingBytes < s.pendingBytes + carried arguments then
        (s.free limits handle).settle (.call n) (.error .queueLimit)
      else s.rpc limits (.call n handle) (.call arguments) (carried arguments) false

/-- The answer is one that the request can have. -/
def acceptable (entry : Entry) (outcome : Outcome) : Bool :=
  match entry.awaits,outcome with
  | .new _ _,.done => true
  | .free _,.done => true
  | .call _ _,.frame frame => validFrame frame entry.size
  | _,_ => false
/-- An answer comes to the page. -/
def onMessage (s : State) (answer : Answer) : State :=
  if s.phase ≠ .ready then s
  else
    match s.pending.find? (·.id = answer.message.id) with
    | none => s
    | some entry =>
      let s := { s with
        pending := s.pending.filter (fun other => other.id ≠ answer.message.id)
        pendingBytes := s.pendingBytes - entry.bytes }
      match answer.outcome with
      | .error code => if entry.settled then s else s.reject entry.awaits code
      | outcome =>
        if acceptable entry outcome then
          if entry.settled then s else { s with waiting := s.waiting ++ [(entry.awaits,outcome)] }
        else (if entry.settled then s else s.reject entry.awaits .invalidResponse).retire .invalidResponse true

/-- What awaits a settled request goes on. -/
def goOn (s : State) : Await → Outcome → State
  | .new n handle,.error code =>
    (if s.closedAt handle then s else s.release handle).settle (.transfer n) (.error code)
  | .new n handle,_ =>
    if s.closedAt handle ∨ ∃ record ∈ s.records handle, ∃ g ∈ record.signal, g ∈ s.aborted then
      (s.free limits handle).settle (.transfer n) (.error .aborted)
    else (s.editRecord handle (fun record => { record with opened := true })).settle (.transfer n) .done
  | .call n handle,.error code => (s.free limits handle).settle (.call n) (.error code)
  | .call n handle,outcome =>
    if s.closedAt handle then (s.free limits handle).settle (.call n) (.error .aborted) else s.settle (.call n) outcome
  | .free handle,outcome => (s.release handle).settle (.release handle) outcome
/-- A signal is aborted: the handles that listen to it are freed, in their order. -/
def abort (s : State) (signal : Nat) : State :=
  if signal ∈ s.aborted then s
  else
    s.handles.foldl (fun s handle =>
        if handle ∈ s.handles ∧ ∃ record ∈ s.records handle, record.signal = some signal
          then s.free limits handle else s)
      { s with aborted := s.aborted ++ [signal] }

/-! ### The worker -/

variable (core : Core)

def session (s : State) (handle : Nat) : Option Session := s.live.find? (·.handle = handle)
/-- The worker handles a request: its answer, and what is live after it. -/
def respond (s : State) (message : Message) : State × Outcome :=
  if message.handle < 1 then (s,.error .invalidHandle)
  else
    match message.body with
    | .new sent =>
      match workerConfig (some sent.value) limits with
      | none => (s,.error .invalidTransfer)
      | some config =>
        if (s.session message.handle).isSome ∨ limits.maxTransfers ≤ s.live.length ∨
            limits.maxActiveBytes < s.liveBytes + config.size then (s,.error .transferLimit)
        else if core.accepts config = false then (s,.error .invalidTransfer)
        else
          ({ s with live := s.live ++ [⟨message.handle,config,[]⟩], liveBytes := s.liveBytes + config.size },.done)
    | .free =>
      match s.session message.handle with
      | none => (s,.done)
      | some session =>
        ({ s with
          live := s.live.filter (·.handle ≠ message.handle)
          liveBytes := s.liveBytes - session.config.size },.done)
    | .call sent =>
      match s.session message.handle with
      | none => (s,.error .unknownTransfer)
      | some session =>
        match workerArguments sent.op sent.raw limits.maxSegmentBytes session.config.peerOnly with
        | none => (s,.error .invalidOperation)
        | some arguments =>
          let calls := session.calls ++ [arguments]
          ({ s with live := s.live.map (fun other =>
              if other.handle = message.handle then { other with calls } else other) },
            .frame (core.answer session.config calls))
def receive (s : State) : State :=
  match s.requests with
  | [] => s
  | message :: requests =>
    let answered := { s with requests }.respond limits core message
    { answered.1 with
      answers := answered.1.answers ++ [⟨message,answered.2⟩]
      handled := answered.1.handled ++ [⟨message,answered.2⟩] }
end
end State

/-! ### Runs -/

inductive Event where
  | transfer (value : Option Value) (signal : Option Nat)
  | call (handle : Nat) (op : Op) (raw : Raw)
  | free (handle : Nat)
  | abort (signal : Nat)
  /-- The page stops the worker. -/
  | stop
  /-- The worker fails, or a request cannot be posted. -/
  | fault (code : Code)
  /-- A request was not answered in time. -/
  | timeout (id : Nat)
  /-- The worker takes a request. -/
  | receive
  /-- The page takes an answer. -/
  | message
  /-- What awaits a settled request goes on. -/
  | resume (index : Nat)

namespace State
variable (limits : Limits) (core : Core)

/-- Calls are made on transfers that were handed out. -/
def step (s : State) : Event → State
  | .transfer value signal => s.transfer limits value signal
  | .call handle op raw =>
    match s.records handle with
    | none => s
    | some record => if record.opened then s.call limits handle record op raw else s
  | .free handle =>
    match s.records handle with
    | none => s
    | some record => if record.opened then s.free limits handle else s
  | .abort signal => s.abort limits signal
  | .stop => s.retire .aborted false
  | .fault code => s.retire code true
  | .timeout id => if s.pending.any (·.id = id) then s.retire .operationTimeout true else s
  | .receive => s.receive limits core
  | .message =>
    match s.answers with
    | [] => s
    | answer :: answers => { s with answers }.onMessage answer
  | .resume index =>
    match s.waiting[index]? with
    | none => s
    | some (awaits,outcome) => { s with waiting := s.waiting.eraseIdx index }.goOn limits awaits outcome

end State
end RelaySwarm.TransferWorker
