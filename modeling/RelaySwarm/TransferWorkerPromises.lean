import RelaySwarm.TransferWorkerRuns

/-!
The promises of a transfer worker. Each promise that was given is in one place: it was
kept, or what awaits it is to go on, or its request is not answered (`Promised`). What is
done to the worker moves it from one place to another, and what is begun owes one.
-/
namespace RelaySwarm.TransferWorker
namespace State
variable {limits : Limits}

def unsettled (s : State) : List Entry := s.pending.filter (fun entry => !entry.settled)
/-- Where the promises are. -/
def places (s : State) : List Promise :=
  s.outcomes.map (·.1) ++ s.waiting.map (·.1.promise) ++ s.unsettled.map (·.awaits.promise)

/-- Every promise given is in one place, or still owed one. -/
structure Promised (s : State) (owed : List Promise) : Prop where
  placed : (s.places ++ owed).Perm s.issued
  distinct : s.issued.Nodup
  transfers : ∀ n, .transfer n ∈ s.issued → n < s.calls
  made : ∀ n, .call n ∈ s.issued → n < s.calls
  released : ∀ handle, .release handle ∈ s.issued → ∃ record, s.records handle = some record ∧ record.released = true

theorem promised_new : Promised State.new [] := by
  constructor <;> simp [State.new,places,unsettled]

namespace Promised
variable {s : State} {owed : List Promise}

theorem issues (promised : Promised s owed) {promise : Promise}
    (next : promise = .transfer s.calls ∨ promise = .call s.calls) :
    Promised { s with calls := s.calls + 1, issued := s.issued ++ [promise] } (promise :: owed) := by
  have fresh : promise ∉ s.issued := by
    rcases next with rfl | rfl
    · exact fun old => absurd (promised.transfers _ old) (lt_irrefl _)
    · exact fun old => absurd (promised.made _ old) (lt_irrefl _)
  constructor
  · refine (List.perm_middle.trans (promised.placed.cons promise)).trans ?_
    exact (List.perm_append_singleton promise s.issued).symm
  · refine List.nodup_append.mpr ⟨promised.distinct,List.nodup_singleton _,fun old member last same other => ?_⟩
    rw [← List.mem_singleton.mp same,← other] at fresh
    exact fresh member
  · intro n member
    rcases List.mem_append.mp member with old | last
    · exact (promised.transfers n old).trans (Nat.lt_succ_self _)
    · rw [← List.mem_singleton.mp last] at next
      rcases next with same | same <;> cases same
      exact Nat.lt_succ_self _
  · intro n member
    rcases List.mem_append.mp member with old | last
    · exact (promised.made n old).trans (Nat.lt_succ_self _)
    · rw [← List.mem_singleton.mp last] at next
      rcases next with same | same <;> cases same
      exact Nat.lt_succ_self _
  · intro handle member
    rcases List.mem_append.mp member with old | last
    · exact promised.released handle old
    · rw [← List.mem_singleton.mp last] at next
      rcases next with same | same <;> cases same
theorem settle {promise : Promise} (promised : Promised s (promise :: owed)) (outcome : Outcome) :
    Promised (s.settle promise outcome) owed := by
  refine { promised with placed := (List.perm_iff_count.mpr fun other => ?_).trans promised.placed }
  simp only [places,unsettled,State.settle,List.map_append,List.count_append,List.map_cons,List.map_nil,List.count_cons,
    List.count_nil]
  omega
theorem waits {awaits : Await} (promised : Promised s (awaits.promise :: owed)) (outcome : Outcome) :
    Promised { s with waiting := s.waiting ++ [(awaits,outcome)] } owed := by
  refine { promised with placed := (List.perm_iff_count.mpr fun other => ?_).trans promised.placed }
  simp only [places,unsettled,List.map_append,List.count_append,List.map_cons,List.map_nil,List.count_cons,
    List.count_nil]
  omega
theorem post {awaits : Await} (promised : Promised s (awaits.promise :: owed)) (body : Body) (bytes : Nat) :
    Promised (s.post limits awaits body bytes) owed := by
  refine { promised with placed := (List.perm_iff_count.mpr fun other => ?_).trans promised.placed }
  simp only [places,unsettled,State.post,List.map_append,List.count_append,List.map_cons,List.map_nil,List.count_cons,
    List.count_nil,List.filter_append,List.filter_cons,List.filter_nil,Bool.not_false,if_true]
  omega
theorem rpc {awaits : Await} (promised : Promised s (awaits.promise :: owed)) (body : Body) (bytes : Nat)
    (control : Bool) :
    Promised (s.rpc limits awaits body bytes control) owed := by
  rcases rpc_cases limits s awaits body bytes control with ⟨_,refused⟩ | ⟨_,⟨_,refused⟩ | ⟨_,_,sent⟩⟩
  · rw [refused]
    exact promised.waits _
  · rw [refused]
    exact promised.waits _
  · rw [sent]
    exact promised.post _ _
theorem edit (promised : Promised s owed) (records : Nat → Option Record)
    (kept : ∀ handle record, s.records handle = some record → record.released = true →
      ∃ record', records handle = some record' ∧ record'.released = true) : Promised { s with records } owed := by
  refine { promised with released := fun handle member => ?_ }
  obtain ⟨record,found,released⟩ := promised.released handle member
  exact kept handle record found released
theorem close (promised : Promised s owed) {handle : Nat} {record : Record} (found : s.records handle = some record)
    (kept : record.released = false) : Promised (s.closeHandle handle) (.release handle :: owed) := by
  have fresh : .release handle ∉ s.issued := by
    intro old
    obtain ⟨record',found',released⟩ := promised.released handle old
    cases found.symm.trans found'
    rw [kept] at released
    cases released
  have records : (s.closeHandle handle).records = Function.update s.records handle
      ((s.records handle).map (fun record => { record with closed := true, released := true })) := rfl
  refine ⟨?_,?_,?_,?_,?_⟩
  · have apart := (List.filter_append_perm (fun entry : Entry => decide (entry.awaits.handle = handle)) s.unsettled).map
      (·.awaits.promise)
    have closed : (s.closeHandle handle).unsettled =
        s.unsettled.filter (fun entry => !decide (entry.awaits.handle = handle)) := by
      unfold unsettled
      show (s.pending.map _).filter _ = _
      rw [List.filter_map,List.filter_filter]
      have same : s.pending.filter ((fun entry : Entry => !entry.settled) ∘ fun entry =>
          if entry.awaits.handle = handle then { entry with settled := true } else entry) =
          s.pending.filter (fun entry => !decide (entry.awaits.handle = handle) && !entry.settled) := by
        refine List.filter_congr (fun entry _ => ?_)
        by_cases own : entry.awaits.handle = handle <;> simp [own]
      rw [same,List.map_congr_left (g := id),List.map_id]
      intro entry member
      have other := (List.mem_filter.mp member).2
      simp only [Bool.and_eq_true,Bool.not_eq_true',decide_eq_false_iff_not] at other
      rw [if_neg other.1]
      rfl
    have rejected : (s.rejected handle).map (·.1.promise) =
        (s.unsettled.filter (fun entry => decide (entry.awaits.handle = handle))).map (·.awaits.promise) := by
      unfold State.rejected unsettled
      rw [List.map_map,List.filter_filter]
      have same : s.pending.filter (fun entry => decide (entry.awaits.handle = handle ∧ entry.settled = false)) =
          s.pending.filter (fun entry => decide (entry.awaits.handle = handle) && !entry.settled) := by
        refine List.filter_congr (fun entry _ => ?_)
        by_cases own : entry.awaits.handle = handle <;> simp [own]
      rw [same]
      rfl
    refine List.perm_iff_count.mpr fun other => ?_
    have placed := List.perm_iff_count.mp promised.placed other
    have apart' := List.perm_iff_count.mp apart other
    have waiting : (s.closeHandle handle).waiting = s.waiting ++ s.rejected handle := rfl
    have outcomes : (s.closeHandle handle).outcomes = s.outcomes := rfl
    have issued : (s.closeHandle handle).issued = s.issued ++ [.release handle] := rfl
    rw [List.map_append,List.count_append] at apart'
    simp only [places,List.count_append] at placed
    rw [places,waiting,outcomes,issued,closed]
    simp only [List.count_append,List.map_append,rejected,List.count_cons,List.count_nil]
    omega
  · show (s.issued ++ [Promise.release handle]).Nodup
    refine List.nodup_append.mpr ⟨promised.distinct,List.nodup_singleton _,fun old member last same other => ?_⟩
    rw [← List.mem_singleton.mp same,← other] at fresh
    exact fresh member
  · intro n member
    refine promised.transfers n ?_
    rcases List.mem_append.mp (show _ ∈ s.issued ++ [Promise.release handle] from member) with old | last
    · exact old
    · simp at last
  · intro n member
    refine promised.made n ?_
    rcases List.mem_append.mp (show _ ∈ s.issued ++ [Promise.release handle] from member) with old | last
    · exact old
    · simp at last
  · intro other member
    rw [records]
    by_cases own : other = handle
    · subst own
      exact ⟨{ record with closed := true, released := true },by simp [found],rfl⟩
    · rw [Function.update_of_ne own]
      refine promised.released other ?_
      rcases List.mem_append.mp (show _ ∈ s.issued ++ [Promise.release handle] from member) with old | last
      · exact old
      · simp [own] at last
theorem free (promised : Promised s owed) (handle : Nat) : Promised (s.free limits handle) owed := by
  unfold State.free
  cases found : s.records handle with
  | none => exact promised
  | some record =>
    dsimp only
    by_cases released : record.released = true
    · rw [if_pos released]
      exact promised
    · rw [if_neg released]
      exact (promised.close found (by simpa using released)).rpc _ _ _
theorem release (promised : Promised s owed) (handle : Nat) : Promised (s.release handle) owed := by
  by_cases held : handle ∈ s.handles
  · rw [release_held held]
    exact { promised with }
  · rw [State.release,if_neg held]
    exact promised
theorem editRecord (promised : Promised s owed) (handle : Nat) (edit : Record → Record)
    (kept : ∀ record, record.released = true →
      (edit record).released = true) : Promised (s.editRecord handle edit) owed := by
  refine promised.edit _ (fun other record found released => ?_)
  by_cases own : other = handle
  · subst own
    exact ⟨edit record,by simp [found],kept record released⟩
  · exact ⟨record,by rw [Function.update_of_ne own]; exact found,released⟩
theorem opens (promised : Promised s owed) (config : Config) (signal : Option Nat)
    (fresh : s.records (s.nextHandle + 1) = none) : Promised (s.opens config signal) owed := by
  have edited := promised.edit (s.opens config signal).records (fun handle record found released => ?_)
  · exact { edited with }
  · refine ⟨record,?_,released⟩
    refine (Function.update_of_ne ?_ _ _).trans found
    rintro rfl
    rw [fresh] at found
    cases found
theorem retire (promised : Promised s owed) (code : Code) (notify : Bool) : Promised (s.retire code notify) owed := by
  by_cases ready : s.phase = .ready
  · rw [retire_ready ready]
    have emptied : Promised (s.emptied code notify) owed := by
      refine { promised with placed := (List.perm_iff_count.mpr fun other => ?_).trans promised.placed }
      simp only [places,unsettled,State.emptied,List.map_append,List.count_append,List.map_map,Function.comp_def,
        List.filter_nil,List.map_nil,List.count_nil]
      omega
    have all : ∀ (handles : List Nat) (s : State), Promised s owed → Promised (handles.foldl lets s) owed := by
      intro handles
      induction handles with
      | nil => exact fun _ promised => promised
      | cons handle rest ih =>
        exact fun s promised => ih _ ((promised.editRecord handle (fun record => { record with closed := true })
          (fun _ released => released)).release handle)
    exact all s.handles _ emptied
  · rw [retire_gone ready]
    exact promised
theorem taken (promised : Promised s owed) {index : Nat} {entry : Await × Outcome}
    (waits : s.waiting[index]? = some entry) :
    Promised { s with waiting := s.waiting.eraseIdx index } (entry.1.promise :: owed) := by
  obtain ⟨inside,same⟩ := List.getElem?_eq_some_iff.mp waits
  have perm := (List.getElem_cons_eraseIdx_perm inside).map (·.1.promise)
  rw [same] at perm
  refine { promised with placed := (List.perm_iff_count.mpr fun other => ?_).trans promised.placed }
  have count := List.perm_iff_count.mp perm other
  rw [List.map_cons,List.count_cons] at count
  simp only [places,unsettled,List.count_append,List.count_cons]
  omega
theorem answered (promised : Promised s owed) {entry : Entry} {pending : List Entry}
    (first : s.pending = entry :: pending) (answers : List Answer) : Promised (s.answered answers pending entry.bytes)
      (if entry.settled then owed else entry.awaits.promise :: owed) := by
  refine { promised with placed := (List.perm_iff_count.mpr fun other => ?_).trans promised.placed }
  by_cases settled : entry.settled = true
  · rw [if_pos settled]
    simp only [places,unsettled,State.answered,first]
    rw [List.filter_cons_of_neg (by simp [settled])]
  · rw [if_neg settled]
    simp only [places,unsettled,State.answered,first]
    rw [List.filter_cons_of_pos (by simpa using settled)]
    simp only [List.map_cons,List.count_append,List.count_cons]
    omega

end Promised
end State
end RelaySwarm.TransferWorker
