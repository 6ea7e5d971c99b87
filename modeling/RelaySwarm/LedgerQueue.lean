import RelaySwarm.DurableQueue
import RelaySwarm.Ledger

/-!
The ledger behind its queue. Requests that arrive while a write is in flight share
the next one; what callers are told is what the ledger does for the requests one
after another, in arrival order, and nothing is told that the file could forget
(`queue_serial`).
-/
namespace RelaySwarm.Ledger
open DurableQueue

def persistenceUnavailable : Refusal := ⟨"account-persistence-unavailable",503⟩
/-- The ledger as the queue runs it; a request comes with what its signal says
    before and after it is applied. -/
def queue (world : World) (options : Options) (mutationCapacity : Nat) :
    System Data Side Request (Bool × Bool) Answer Refusal where
  apply request aborted := apply world options ⟨request,aborted.1,aborted.2⟩
  writes := Request.write
  cancelled := operationCancelled
  unpersisted := persistenceUnavailable
  capacity := mutationCapacity

/-- For every interleaving of arrivals, cancellations, clock readings and writes that
    succeed or fail: the requests are applied in arrival order, and the outcomes told
    are those of applying them one after another, where a refused one leaves the state
    as it was. The file, and the memory, have every change made before the last
    outcome told. Once a write failed, whatever is not told yet is refused, the state
    stays what was last saved, and no request is taken any more. An idle queue at which
    none waits has told the outcome of every request it took. -/
theorem queue_serial (world : World) (options : Options) (mutationCapacity : Nat) (file : Data) (side : Side)
    (events : List (Event Request (Bool × Bool))) :
    let system := queue world options mutationCapacity
    let q := run system (opened file side) events
    q.released.map (·.1) = List.range q.released.length ∧
    (q.phase = .idle → q.waiting = [] → q.released.length = q.submitted.length) ∧
    q.applied.map (·.1) = q.submitted.take q.applied.length ∧
    (∀ n refusal, (outcomes system file side q.applied)[n]? = some (.error refusal) →
      stateAt system file side q (n + 1) = stateAt system file side q n) ∧
    (∃ told ≤ q.applied.length, told ≤ q.released.length ∧ (q.broken = false → told = q.released.length) ∧
      (q.released.take told).map (·.2) = (outcomes system file side q.applied).take told ∧
      (∀ outcome ∈ q.released.drop told, outcome.2 = .error persistenceUnavailable ∨
        outcome.2 = .error operationCancelled) ∧
      (∃ m ≤ q.applied.length, q.file = stateAt system file side q m ∧
        ∀ j ≤ told, m ≤ j → stateAt system file side q j = q.file) ∧
      ∃ m ≤ q.applied.length, q.memory = stateAt system file side q m ∧
        ∀ j ≤ told, m ≤ j → stateAt system file side q j = q.memory) ∧
    (q.broken = false → (∀ working held, q.phase ≠ .writing working true held) → q.file = q.memory) ∧
    (step system q .failed).memory = q.memory ∧
    ∀ more, q.broken = true → (run system q more).memory = q.memory ∧ (run system q more).submitted = q.submitted ∧
      ∃ late, (run system q more).released = q.released ++ late ∧
        ∀ outcome ∈ late, outcome.2 = .error operationCancelled := by
  intro system q
  obtain ⟨told,_,orderly⟩ := run_orderly events (opened_orderly : Orderly system file side (opened file side) 0)
  change Orderly system file side q told at orderly
  refine ⟨?_,?_,orderly.arrival,?_,⟨told,orderly.few.2,orderly.few.1,fun running => (orderly.running running).1,
    orderly.same,orderly.refused,orderly.file,orderly.memory⟩,orderly.saved,?_,?_⟩
  · have numbers := congrArg (List.take q.released.length) orderly.numbers
    rw [List.map_append,List.append_assoc,List.take_append_of_le_length (by simp),List.take_of_length_le (by simp)]
      at numbers
    have few : q.released.length ≤ q.submitted.length := by
      have length := congrArg List.length orderly.numbers
      simp only [List.length_append,List.length_map,List.length_range] at length
      omega
    rw [numbers,List.take_range,min_eq_left few]
  · intro idle none
    have length := congrArg List.length orderly.numbers
    simpa [idle,none,Phase.held,Phase.left] using length
  · exact fun n refusal refused => refused_same system _ _ _ n refusal refused
  · unfold step
    dsimp only
    split <;> rfl
  · intro more broken
    obtain ⟨_,memory,_,submitted,_,late,said,refused⟩ := broken_run more broken (orderly.concluded broken)
    exact ⟨memory,submitted,late,said,refused⟩
private def stillWorld : World := ⟨fun _ => some 0,fun _ => 0,fun _ => "",fun _ => "",fun _ _ => ""⟩
/-- An inspection waits behind a reservation; both are refused, and both are told. -/
theorem queue_serial_refused :
    (run (queue stillWorld ⟨0,120,10800,1,1,1,1⟩ 2) (opened ⟨"",0,[],[],[],[]⟩ ⟨0,fun _ => none,0,0,0,0⟩)
      [.submit (.reserve "a" "b" 1),.start,.submit (.inspectGrant "a"),.apply (false,false),.finish,.start,
        .apply (false,false),.finish]).released.length = 2 := by
  have whole := queue_serial stillWorld ⟨0,120,10800,1,1,1,1⟩ 2 ⟨"",0,[],[],[],[]⟩ ⟨0,fun _ => none,0,0,0,0⟩
    [.submit (.reserve "a" "b" 1),.start,.submit (.inspectGrant "a"),.apply (false,false),.finish,.start,
      .apply (false,false),.finish]
  exact whole.2.1 rfl rfl

end RelaySwarm.Ledger
