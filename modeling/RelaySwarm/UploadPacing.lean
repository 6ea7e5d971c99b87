import Mathlib.Data.Rat.Floor

/-!
The pacer of a viewer's uploads. A request for pieces waits for the token bucket to
refill, at most 250 ms. What the pacer asks of its surroundings is answered by a world,
one answer for each call, and all that it asks and tells is written down, the newest
first.
-/
namespace RelaySwarm.Pacing

def waitMs : ℚ := 250
inductive Reason where
  | expired | cancelled | refused
deriving DecidableEq
structure Geometry where
  key : String
  size : Nat
  charge : Nat
  range : Option (Nat × Nat)
/-- A request that waits or has its tokens. Rows are told apart by the order in which they
    arrived. -/
structure Row (ι : Type) where
  id : Nat
  link : ι
  key : String
  size : Nat
  charge : Nat
  range : Option (Nat × Nat)
  queuedAt : ℚ
  deadline : ℚ
  waiting : Bool
  active : Bool
structure Counts where
  waited : Nat
  waitTotalMs : ℚ
  waitMaxMs : ℚ
  granted : Nat
  expired : Nat
  cancelled : Nat
  refused : Nat
def Counts.count (counts : Counts) : Reason → Counts
  | .expired => { counts with expired := counts.expired + 1 }
  | .cancelled => { counts with cancelled := counts.cancelled + 1 }
  | .refused => { counts with refused := counts.refused + 1 }
/-- What the surroundings answer to each call. The clock never goes back; the tokens, the
    delays and the checks answer as they like. -/
structure World where
  now : Nat → ℚ
  take : Nat → Bool
  delay : Nat → ℚ
  validate : Nat → Bool
  forward : Monotone now
/-- What the pacer asks and is answered, and what it tells. A row that is sent tells
    nothing; it is written down for the accounts. -/
inductive Effect (ι : Type) where
  | now (moment : ℚ)
  | take (charge : Nat) (took : Bool)
  | delay (charge : Nat)
  | validate (id : Nat) (held : Bool)
  | give (row : Row ι)
  | sent (row : Row ι)
  | refuse (reason : Reason)
  | acquire (id : Nat) (link : ι) (queuedAt : ℚ)
  | resolve (row : Row ι) (granted : Bool)
  | abort (id : Nat)
structure Pacer (ι : Type) where
  queued : List (Row ι)
  reserved : List (Row ι)
  counts : Counts
  closed : Bool
  /-- How long the timer waits. -/
  timer : Option ℤ
  /-- How many pumps are queued as microtasks. -/
  microtasks : Nat
  nextId : Nat
  /-- How many calls the world has answered, now and when the last pump began. -/
  calls : Nat
  pumpedAt : Nat
  log : List (Effect ι)

section
variable {ι : Type} (w : World)

def Pacer.create : Pacer ι where
  queued := []
  reserved := []
  counts := ⟨0,0,0,0,0,0,0⟩
  closed := false
  timer := none
  microtasks := 0
  nextId := 0
  calls := 0
  pumpedAt := 0
  log := []

def Pacer.tell (s : Pacer ι) (effect : Effect ι) : Pacer ι := { s with log := effect :: s.log }
def Pacer.ask (s : Pacer ι) (effect : Effect ι) : Pacer ι := { s with calls := s.calls + 1, log := effect :: s.log }

def recordWait (row : Row ι) (s : Pacer ι) : Pacer ι :=
  if !row.waiting then s
  else
    let elapsed := max 0 (w.now s.calls - row.queuedAt)
    { s.ask (.now (w.now s.calls)) with
      counts := { s.counts with
        waited := s.counts.waited + 1
        waitTotalMs := s.counts.waitTotalMs + elapsed
        waitMaxMs := max s.counts.waitMaxMs elapsed } }
section
variable [DecidableEq ι]

def remove (row : Row ι) (reason : Reason) (s : Pacer ι) : Pacer ι :=
  if (s.queued.find? (·.link = row.link)).map (·.id) ≠ some row.id then s
  else
    let s := recordWait w row { s with queued := s.queued.eraseP (·.link = row.link) }
    ({ s with counts := s.counts.count reason }.tell (.refuse reason)).tell (.resolve row false)
def finish (id : Nat) (sent : Bool) (s : Pacer ι) : Pacer ι :=
  match s.reserved.find? (·.id = id) with
  | none => s
  | some row =>
    let s := { s with reserved := s.reserved.eraseP (·.id = id), microtasks := s.microtasks + 1 }
    s.tell (if sent then .sent row else .give row)
/-- A row has its tokens. -/
def grant (row : Row ι) (rest : List (Row ι)) (s : Pacer ι) : Pacer ι :=
  let s := recordWait w row { s with queued := rest }
  { s with
    reserved := s.reserved ++ [{ row with active := true }]
    counts := { s.counts with granted := s.counts.granted + 1 } }.tell (.resolve row true)
/-- The rows from the first one on, until one has to wait for its tokens. -/
def pumpRows : List (Row ι) → Pacer ι → Pacer ι
  | [],s => s
  | row :: rest,s =>
    let asked := s.ask (.now (w.now s.calls))
    if row.deadline ≤ w.now s.calls then pumpRows rest (remove w row .expired asked)
    else
      let checked := asked.ask (.validate row.id (w.validate asked.calls))
      if !w.validate asked.calls then pumpRows rest (remove w row .cancelled checked)
      else
        let took := checked.ask (.take row.charge (w.take checked.calls))
        if !w.take checked.calls then
          let read := took.ask (.now (w.now took.calls))
          let delayed := read.ask (.delay row.charge)
          { delayed with
            queued := { row with waiting := true } :: rest
            timer := some (max 1 ⌈min (row.deadline - w.now took.calls) (w.delay read.calls)⌉) }
        else pumpRows rest (grant w row rest took)
def pump (s : Pacer ι) : Pacer ι :=
  if s.closed then { s with timer := none, pumpedAt := s.calls }
  else { pumpRows w s.queued { s with timer := none } with pumpedAt := s.calls }
def cancelReserved (row : Row ι) (s : Pacer ι) : Pacer ι :=
  finish row.id false ({ s with counts := { s.counts with cancelled := s.counts.cancelled + 1 } }.tell (.abort row.id))
/-- The rows of a link, or all rows, are dropped. -/
def cancel (link : Option ι) (s : Pacer ι) : Pacer ι :=
  let dropped := (s.queued.filter (fun row => link.all (row.link = ·))).foldl (fun s row => remove w row .cancelled s) s
  let finished :=
    (dropped.reserved.filter (fun row => link.all (row.link = ·))).foldl (fun s row => cancelReserved row s) dropped
  pump w finished
def refuseAcquire (s : Pacer ι) : Pacer ι := { s with counts := s.counts.count .refused }.tell (.refuse .refused)
/-- A request joins the end, with a deadline that never changes. -/
def enqueue (link : ι) (geometry : Geometry) (s : Pacer ι) : Pacer ι :=
  let read := s.ask (.now (w.now s.calls))
  let row : Row ι := ⟨s.nextId,link,geometry.key,geometry.size,geometry.charge,geometry.range,
    w.now s.calls,w.now s.calls + waitMs,!read.queued.isEmpty,false⟩
  { read with queued := read.queued ++ [row], nextId := s.nextId + 1 }.tell (.acquire s.nextId link (w.now s.calls))
def acquire (maxWaiters : Nat) (link : ι) (geometry : Geometry) (s : Pacer ι) : Pacer ι :=
  if s.closed || s.queued.any (·.link = link) || s.reserved.any (·.link = link) || maxWaiters ≤ s.queued.length
    then refuseAcquire s
  else if geometry.range.isSome then pump w (enqueue w link geometry s)
  else if !s.queued.isEmpty then refuseAcquire s
  else
    let delayed := s.ask (.delay geometry.charge)
    if 0 < w.delay s.calls then refuseAcquire delayed else pump w (enqueue w link geometry delayed)
def stop (s : Pacer ι) : Pacer ι := { cancel w none { s with closed := true } with timer := none }

inductive Event (ι : Type) where
  | acquire (link : ι) (geometry : Geometry)
  | finish (id : Nat) (sent : Bool)
  | cancel (link : Option ι)
  | recheck
  | stop
  | timer
  | microtask
def step (maxWaiters : Nat) (s : Pacer ι) : Event ι → Pacer ι
  | .acquire link geometry => acquire w maxWaiters link geometry s
  | .finish id sent => finish id sent s
  | .cancel link => cancel w link s
  | .recheck => pump w s
  | .stop => stop w s
  | .timer => if s.timer.isSome then pump w s else s
  | .microtask => if 0 < s.microtasks then pump w { s with microtasks := s.microtasks - 1 } else s
def run (maxWaiters : Nat) (events : List (Event ι)) : Pacer ι := events.foldl (step w maxWaiters) Pacer.create
end
end

end RelaySwarm.Pacing
