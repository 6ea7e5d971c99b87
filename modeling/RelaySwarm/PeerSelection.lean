import Mathlib.Algebra.Order.Ring.Rat
import Mathlib.Algebra.Order.WithTop.Untop0
import Mathlib.Data.List.Chain

/-!
The choice of a link for a request, in `peer-selection.mjs` and in
`selection.rs`. A link is measured once an attempt on it was recorded; among the
links that may serve the request the choice goes to the measured ones without a
recent failure, and in one of four turns to one that was never measured. The
two programs find the eligible links in their own records (`Browser.eligible`,
`Core.eligible`) and choose among them alike (`select`).
-/
namespace RelaySwarm.Choosing

/-- What was observed on a link. -/
structure Observation where
  attempts : Nat
  latencyMs : Option ℚ
  throughputBytesPerSecond : Option ℚ
  failureRate : ℚ
  consecutiveFailures : Nat
  lastSelected : Nat
deriving DecidableEq

def Observation.default : Observation := ⟨0,none,none,0,0,0⟩

abbrev Deadline := WithTop ℚ

/-- The state of the choice: the observations by link, the turn and the order of the choices so far,
    the sizes and rates of recent completions, and when the last one arrived. -/
structure PeerSelection (ι : Type) where
  observations : ι → Option Observation
  turn : Nat
  order : Nat
  recentCompletions : List (ℚ × ℚ)
  lastObservedAt : ℚ

def new {ι : Type} : PeerSelection ι := ⟨fun _ => none,0,0,[],0⟩

def RECENT_COMPLETIONS : Nat := 16

variable {ι : Type}

def summary (s : PeerSelection ι) (link : ι) : Observation := (s.observations link).getD .default

/-- How long a transfer of this size would take on a link, or nothing before a delivery. -/
def estimate (s : PeerSelection ι) (link : ι) (size : ℚ) : Option ℚ :=
  let value := summary s link
  value.latencyMs.map fun latency =>
    let transferMs := match value.throughputBytesPerSecond with
      | some throughput => if size ≠ 0 ∧ throughput ≠ 0 then size * 1000 / throughput else 0
      | none => 0
    max latency transferMs

/-- The estimate of a link leaves it time before the deadline. -/
def inTime (s : PeerSelection ι) (size : ℚ) (deadlineMs : Deadline) (link : ι) : Bool :=
  match estimate s link size with
  | none => true
  | some estimate => decide (((estimate * (5 / 4) + 25 : ℚ) : Deadline) ≤ deadlineMs)

def put [DecidableEq ι] (s : PeerSelection ι) (link : ι) (value : Observation) : PeerSelection ι :=
  { s with observations := fun other => if other = link then some value else s.observations other }

/-- Record that a link was chosen for a request. -/
def markSelected [DecidableEq ι] (s : PeerSelection ι) (link : ι) : PeerSelection ι :=
  put { s with order := s.order + 1 } link { summary s link with lastSelected := s.order + 1 }

/-- The first of a nonempty list with the least score. -/
def least (score : ι → ℚ) (first : ι) (rest : List ι) : ι :=
  rest.foldl (fun best link => if score link < score best then link else best) first

def cold (s : PeerSelection ι) (eligible : List ι) : List ι :=
  eligible.filter (fun link => (summary s link).attempts = 0)
def measured (s : PeerSelection ι) (eligible : List ι) : List ι :=
  eligible.filter (fun link => (summary s link).attempts ≠ 0)
def healthy (s : PeerSelection ι) (eligible : List ι) : List ι :=
  (measured s eligible).filter (fun link => (summary s link).consecutiveFailures = 0)

/-- One in four choices explores an unmeasured eligible link. -/
def explore (s : PeerSelection ι) (eligible : List ι) (deadlineMs : Deadline) : Bool :=
  !(cold s eligible).isEmpty &&
    ((healthy s eligible).isEmpty || decide (s.turn = 0) && decide ((100 : Deadline) ≤ deadlineMs))

def candidates (s : PeerSelection ι) (eligible : List ι) (deadlineMs : Deadline) : List ι :=
  if explore s eligible deadlineMs then cold s eligible
  else if (healthy s eligible).isEmpty then measured s eligible
  else healthy s eligible

def score (s : PeerSelection ι) (explore : Bool) (size : ℚ) (link : ι) : ℚ :=
  if explore then ((summary s link).lastSelected : ℚ)
  else (estimate s link size).getD 1000 * (1 + (summary s link).failureRate * 4)

/-- The choice among the eligible links. -/
def select [DecidableEq ι] (s : PeerSelection ι) (eligible : List ι) (size : ℚ) (deadlineMs : Deadline) :
    Option ι × PeerSelection ι :=
  if eligible.isEmpty then (none,s) else
  let next := { s with turn := (s.turn + 1) % 4 }
  match candidates s eligible deadlineMs with
  | [] => (none,next)
  | first :: rest =>
    let selected := least (score s (explore s eligible deadlineMs) size) first rest
    (some selected,markSelected next selected)

/-- A list of recent values takes one more and drops its oldest beyond the bound. -/
def pushBounded {α : Type} (recent : List α) (value : α) : List α :=
  let pushed := recent ++ [value]
  if pushed.length > RECENT_COMPLETIONS then pushed.tail else pushed

def blend (previous : Option ℚ) (next : ℚ) : ℚ :=
  match previous with
  | none => next
  | some previous => previous * (3 / 4) + next * (1 / 4)

/-- One attempt on a link: the bytes it delivered, none for a failure. -/
def record [DecidableEq ι] (s : PeerSelection ι) (now : ℚ) (link : ι) (elapsedMs bytes : ℚ) : PeerSelection ι :=
  let value := summary s link
  let elapsed := min 60000 (max 1 elapsedMs)
  let value := { value with
    attempts := min 32 (value.attempts + 1)
    failureRate := value.failureRate * (3 / 4) + if bytes ≠ 0 then 0 else 1 / 4
    consecutiveFailures := if bytes ≠ 0 then 0 else min 32 (value.consecutiveFailures + 1) }
  if bytes ≠ 0 then
    put { s with
        recentCompletions := pushBounded s.recentCompletions (bytes,min 1000000 (bytes / elapsed))
        lastObservedAt := now } link
      { value with
        latencyMs := some (blend value.latencyMs elapsed)
        throughputBytesPerSecond :=
          some (blend value.throughputBytesPerSecond (min 1000000000 (bytes * 1000 / elapsed))) }
  else put s link value

/-- Drop the history of a closed link. -/
def forget [DecidableEq ι] (s : PeerSelection ι) (link : ι) : PeerSelection ι :=
  { s with observations := fun other => if other = link then none else s.observations other }

/-! ### The links of the two programs -/

/-- A connected peer, as the page's swarm holds it. -/
structure PeerLink (ι : Type) where
  id : ι
  pubkey : String
  closed : Bool
  busy : Bool
  haves : List String
/-- The links of a request for a key, and the peers tried for it. -/
structure Browser (ι : Type) where
  links : List (PeerLink ι)
  key : String
  tried : List String

/-- What the core needs to know about one link at the moment of choice. -/
structure LinkView (ι : Type) where
  id : ι
  pubkey : String
  closed : Bool
  busy : Bool
  hasKey : Bool
/-- The links of a request, and the peers tried for it. -/
structure Core (ι : Type) where
  links : List (LinkView ι)
  tried : List String

def Browser.eligible (request : Browser ι) (inTime : ι → Bool) : List ι :=
  (request.links.filter fun link =>
    !link.closed && !link.busy && !request.tried.contains link.pubkey && link.haves.contains request.key &&
      inTime link.id).map PeerLink.id
def Core.eligible (request : Core ι) (inTime : ι → Bool) : List ι :=
  (request.links.filter fun link =>
    !link.closed && !link.busy && !request.tried.contains link.pubkey && link.hasKey &&
      inTime link.id).map LinkView.id

/-- How a program finds the eligible links of a request: some of the links it names. -/
structure Offers (ι ρ : Type) where
  named : ρ → List ι
  eligible : ρ → (ι → Bool) → List ι
  subset : ∀ request inTime, eligible request inTime ⊆ named request

def Browser.offers : Offers ι (Browser ι) where
  named request := request.links.map PeerLink.id
  eligible := Browser.eligible
  subset _ _ := List.map_subset _ (List.filter_subset_self _)
def Core.offers : Offers ι (Core ι) where
  named request := request.links.map LinkView.id
  eligible := Core.eligible
  subset _ _ := List.map_subset _ (List.filter_subset_self _)

/-! ### Runs -/

inductive Call (ι ρ : Type) where
  | select (request : ρ) (size : ℚ) (deadlineMs : Deadline)
  | record (now : ℚ) (link : ι) (elapsedMs bytes : ℚ)
  | markSelected (link : ι)
  | forget (link : ι)

/-- One choice of a run: the calls before it, the state it was made in, and what was chosen. -/
structure Choice (ι ρ : Type) where
  past : List (Call ι ρ)
  before : PeerSelection ι
  eligible : List ι
  deadlineMs : Deadline
  chosen : ι

section
variable {ρ : Type} [DecidableEq ι] (offers : Offers ι ρ)

/-- What a call answers, and the state it leaves. -/
def call (s : PeerSelection ι) : Call ι ρ → Option ι × PeerSelection ι
  | .select request size deadlineMs => select s (offers.eligible request (inTime s size deadlineMs)) size deadlineMs
  | .record now link elapsedMs bytes => (none,record s now link elapsedMs bytes)
  | .markSelected link => (none,markSelected s link)
  | .forget link => (none,forget s link)

/-- The choice a call makes, when it returns a link. -/
def choice (past : List (Call ι ρ)) (s : PeerSelection ι) (c : Call ι ρ) : Option (Choice ι ρ) :=
  match c with
  | .select request size deadlineMs =>
    (call offers s c).1.map fun chosen =>
      { past, before := s, eligible := offers.eligible request (inTime s size deadlineMs), deadlineMs, chosen }
  | _ => none

/-- The choices of a run, in order. -/
def choices (past : List (Call ι ρ)) (s : PeerSelection ι) : List (Call ι ρ) → List (Choice ι ρ)
  | [] => []
  | c :: rest => (choice offers past s c).toList ++ choices (past ++ [c]) (call offers s c).2 rest

/-- What the calls so far recorded last on a link: whether the attempt delivered, or nothing
    when no attempt was recorded since its history was dropped. -/
def outcome (past : List (Call ι ρ)) (link : ι) : Option Bool :=
  past.foldl (fun known c =>
    match c with
    | .record _ attempted _ bytes => if attempted = link then some (decide (bytes ≠ 0)) else known
    | .forget dropped => if dropped = link then none else known
    | _ => known) none

/-- A choice of a link that was never measured, where one without a failure since its last success was eligible. -/
def Choice.wasteful (p : Choice ι ρ) : Bool :=
  decide (outcome p.past p.chosen = none) && p.eligible.any (fun link => outcome p.past link = some true)

end

/-- The links a call names, eligible or not. -/
def Call.links {ρ : Type} (offers : Offers ι ρ) : Call ι ρ → List ι
  | .select request _ _ => offers.named request
  | .record _ link _ _ => [link]
  | .markSelected link => [link]
  | .forget link => [link]

/-- A choice or an outcome, not a history dropped or a selection marked from outside. -/
def Call.Own {ρ : Type} : Call ι ρ → Prop
  | .select _ _ _ => True
  | .record _ _ _ _ => True
  | _ => False
end RelaySwarm.Choosing
