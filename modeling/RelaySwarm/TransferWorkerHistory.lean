import RelaySwarm.TransferWorkerPromises

/-!
What a step leaves of what was before it. What was settled or sent stays so, a request
that waits waited before or is for a promise of this step, and a call is sent for the
event that made it (`Follows`).
-/
namespace RelaySwarm.TransferWorker
namespace State
variable (limits : Limits)

/-- A request for a call is sent in the event that made the call, with its arguments. -/
def Made (start : State) (event : Event) (message : Message) : Prop :=
  ∀ arguments, message.body = .call arguments → ∃ handle op raw record, event = .call handle op raw ∧
    start.records handle = some record ∧ message.handle = handle ∧ message.awaits = .call start.calls handle ∧
    workerArguments op raw limits.maxSegmentBytes record.config.peerOnly = some arguments

structure Follows (start : State) (event : Event) (s : State) : Prop where
  outcomes : start.outcomes <+: s.outcomes
  issued : start.issued ⊆ s.issued
  pending : ∀ entry ∈ s.pending, entry.settled = false →
    (∃ old ∈ start.pending, old.id = entry.id ∧ old.awaits = entry.awaits ∧ old.settled = false) ∨
      entry.awaits.promise ∉ start.issued
  sent : ∀ message ∈ s.sent, message ∈ start.sent ∨ Made limits start event message

theorem follows_refl (s : State) (event : Event) : Follows limits s event s :=
  ⟨List.prefix_rfl,List.Subset.refl _,fun entry member waits => .inl ⟨entry,member,rfl,rfl,waits⟩,
    fun _ sent => .inl sent⟩

namespace Follows
variable {limits} {start : State} {event : Event} {s : State}

theorem issues (follows : Follows limits start event s) (calls : Nat) (promise : Promise) :
    Follows limits start event { s with calls, issued := s.issued ++ [promise] } :=
  { follows with issued := List.subset_append_of_subset_left _ follows.issued }
theorem settle (follows : Follows limits start event s) (promise : Promise) (outcome : Outcome) :
    Follows limits start event (s.settle promise outcome) :=
  { follows with outcomes := follows.outcomes.trans (List.prefix_append _ _) }
theorem post (follows : Follows limits start event s) {awaits : Await} {body : Body} (bytes : Nat)
    (fresh : awaits.promise ∉ start.issued) (made : Made limits start event (s.message awaits body)) :
    Follows limits start event (s.post limits awaits body bytes) := by
  refine { follows with pending := fun entry member waits => ?_, sent := fun message member => ?_ }
  · rcases List.mem_append.mp member with old | last
    · exact follows.pending entry old waits
    · rw [List.mem_singleton.mp last]
      exact .inr fresh
  · rcases List.mem_append.mp member with old | last
    · exact follows.sent message old
    · rw [List.mem_singleton.mp last]
      exact .inr made
theorem rpc (follows : Follows limits start event s) {awaits : Await} {body : Body} (bytes : Nat) (control : Bool)
    (fresh : awaits.promise ∉ start.issued) (made : Made limits start event (s.message awaits body)) :
    Follows limits start event (s.rpc limits awaits body bytes control) := by
  rcases rpc_cases limits s awaits body bytes control with ⟨_,refused⟩ | ⟨_,⟨_,refused⟩ | ⟨_,_,sent⟩⟩
  · rw [refused]
    exact { follows with }
  · rw [refused]
    exact { follows with }
  · rw [sent]
    exact follows.post bytes fresh made
theorem close (follows : Follows limits start event s) (handle : Nat) :
    Follows limits start event (s.closeHandle handle) := by
  refine { follows with
    issued := List.subset_append_of_subset_left [Promise.release handle] follows.issued
    pending := fun entry member waits => ?_ }
  obtain ⟨old,kept,rfl⟩ := List.mem_map.mp (show entry ∈ s.pending.map _ from member)
  by_cases own : old.awaits.handle = handle
  · rw [if_pos own] at waits
    cases waits
  · rw [if_neg own] at waits ⊢
    exact follows.pending old kept waits
theorem free (follows : Follows limits start event s) {owed : List Promise} (promised : Promised s owed)
    (handle : Nat) :
    Follows limits start event (s.free limits handle) := by
  unfold State.free
  cases found : s.records handle with
  | none => exact follows
  | some record =>
    dsimp only
    by_cases released : record.released = true
    · rw [if_pos released]
      exact follows
    · rw [if_neg released]
      refine (follows.close handle).rpc 0 true (fun old => ?_) (fun _ call => (nomatch call))
      obtain ⟨record',found',released'⟩ := promised.released handle (follows.issued old)
      cases found.symm.trans found'
      exact released released'
theorem release (follows : Follows limits start event s) (handle : Nat) :
    Follows limits start event (s.release handle) := by
  by_cases held : handle ∈ s.handles
  · rw [release_held held]
    exact { follows with }
  · rw [State.release,if_neg held]
    exact follows
theorem answered (follows : Follows limits start event s) {entry : Entry} {pending : List Entry}
    (first : s.pending = entry :: pending) (answers : List Answer) :
    Follows limits start event (s.answered answers pending entry.bytes) :=
  { follows with
    pending := fun other member => follows.pending other (by rw [first]; exact List.mem_cons_of_mem _ member) }
theorem retire (follows : Follows limits start event s) (code : Code) (notify : Bool) :
    Follows limits start event (s.retire code notify) := by
  by_cases ready : s.phase = .ready
  · rw [retire_ready ready,lets_frame]
    exact { follows with pending := fun entry member => (nomatch member) }
  · rw [retire_gone ready]
    exact follows

end Follows
end State
end RelaySwarm.TransferWorker
