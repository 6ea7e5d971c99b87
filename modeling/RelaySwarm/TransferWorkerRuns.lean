import RelaySwarm.TransferWorkerSteps

/-!
A transfer worker over a whole run. An answer is for the oldest request, which waits
first; what goes on after it lets a handle go only when the worker has done with it. So
the worker is in order until the page is done with it, and empty from then on.
-/
namespace RelaySwarm.TransferWorker
open JsonText
namespace State
variable {limits : Limits}

/-! ### The phase -/

variable {s : State}
@[simp] theorem release_phase (s : State) (handle : Nat) : (s.release handle).phase = s.phase := by
  unfold State.release
  split_ifs <;> rfl
@[simp] theorem rpc_phase (s : State) (awaits : Await) (body : Body) (bytes : Nat) (control : Bool) :
    (s.rpc limits awaits body bytes control).phase = s.phase := by
  unfold rpc
  split_ifs <;> rfl
@[simp] theorem free_phase (s : State) (handle : Nat) : (s.free limits handle).phase = s.phase := by
  unfold State.free
  cases s.records handle with
  | none => rfl
  | some record =>
    dsimp only
    split_ifs
    · rfl
    · exact rpc_phase _ _ _ _ _

/-! ### The page is done with the worker -/

/-- The queues are gone, and what waited is rejected. -/
def emptied (s : State) (code : Code) (notify : Bool) : State :=
  { s with
    phase := if notify then .failed else .stopped
    reason := some code
    waiting :=
      s.waiting ++ (s.pending.filter (fun entry => !entry.settled)).map (fun entry => (entry.awaits,.error code))
    pending := []
    pendingBytes := 0
    requests := []
    answers := []
    live := []
    liveBytes := 0 }
def lets (s : State) (handle : Nat) : State :=
  (s.editRecord handle (fun record => { record with closed := true })).release handle
theorem retire_ready (ready : s.phase = .ready) (code : Code) (notify : Bool) :
    s.retire code notify = s.handles.foldl lets (s.emptied code notify) := by
  rw [retire,if_neg (by simp [ready])]
  rfl
theorem retire_gone (gone : s.phase ≠ .ready) (code : Code) (notify : Bool) : s.retire code notify = s :=
  if_pos gone
theorem lets_frame (handles : List Nat) (s : State) : handles.foldl lets s = { s with
    handles := (handles.foldl lets s).handles
    activeBytes := (handles.foldl lets s).activeBytes
    records := (handles.foldl lets s).records } := by
  induction handles generalizing s with
  | nil => rfl
  | cons handle rest ih =>
    rw [List.foldl_cons,ih]
    by_cases held : handle ∈ s.handles
    · simp [lets,State.release,editRecord,held]
    · simp [lets,State.release,editRecord,held]
theorem retire_phase (s : State) (code : Code) (notify : Bool) : (s.retire code notify).phase ≠ .ready := by
  by_cases ready : s.phase = .ready
  · rw [retire_ready ready,lets_frame]
    cases notify <;> simp [emptied]
  · rw [retire_gone ready]
    exact ready

/-! ### The page takes an answer -/

/-- The oldest answer is taken from the queue, with the request it is for. -/
def answered (s : State) (answers : List Answer) (pending : List Entry) (bytes : Nat) : State :=
  { s with answers, pending, pendingBytes := s.pendingBytes - bytes }
theorem Working.first (working : Working limits s) {answer : Answer} {answers : List Answer}
    (oldest : s.answers = answer :: answers) : ∃ entry pending, s.pending = entry :: pending ∧
      Matches entry answer.message ∧ s.pending.find? (·.id = answer.message.id) = some entry ∧
      s.pending.filter (·.id ≠ answer.message.id) = pending ∧
      Working limits (s.answered answers pending entry.bytes) := by
  have books := working.books
  have aligned := books.aligned
  rw [between,oldest,List.map_cons,List.cons_append] at aligned
  obtain ⟨entry,pending,same,rest,waits⟩ := List.forall₂_cons_right_iff.mp aligned
  have ids := books.ids
  rw [waits,List.map_cons,List.pairwise_cons] at ids
  refine ⟨entry,pending,waits,same,?_,?_,?_,?_⟩
  · rw [waits,List.find?_cons_of_pos (by simpa using same.1)]
  · rw [waits,List.filter_cons_of_neg (by simpa using same.1),List.filter_eq_self]
    intro other member
    have later := ids.1 other.id (List.mem_map_of_mem member)
    rw [same.1] at later
    simpa using Nat.ne_of_gt later
  · have sum := books.bytes
    rw [waits,List.map_cons,List.sum_cons] at sum
    have less : pending ⊆ s.pending := by rw [waits]; exact List.subset_cons_self _ _
    refine { books with
      proper := ?_, aligned := rest, ids := ids.2, latest := ?_, bytes := ?_, room := ?_, few := ?_, sized := ?_ }
    · intro message member
      refine books.proper message ?_
      rw [between,oldest]
      exact List.mem_cons_of_mem _ member
    · exact fun other member => books.latest other (less member)
    · show s.pendingBytes - entry.bytes = (pending.map (·.bytes)).sum
      omega
    · exact (Nat.sub_le _ _).trans books.room
    · have few := books.few
      rw [waits] at few
      exact (List.Sublist.filter _ (List.sublist_cons_self entry pending)).length_le.trans few
    · exact fun other member => books.sized other (less member)
  · intro handle
    have fewer : (answers.filter (·.message.handle = handle)).Sublist (s.view handle).answered := by
      show List.Sublist _ (s.answers.filter _)
      rw [oldest]
      exact (List.sublist_cons_self answer answers).filter _
    exact (working.rights handle).fewer fewer (List.Sublist.refl _)
theorem Working.tells (working : Working limits s) {answer : Answer} {answers : List Answer}
    (oldest : s.answers = answer :: answers) {entry : Entry} {pending : List Entry}
    (same : Matches entry answer.message) (outcome : Outcome) (as' : outcome.fails = answer.outcome.fails)
    (rest : Working limits (s.answered answers pending entry.bytes)) :
    Working limits { s.answered answers pending entry.bytes with
      waiting := s.waiting ++ [(entry.awaits,outcome)] } := by
  have proper := working.books.proper answer.message
    (by rw [between,oldest]; exact List.mem_cons_self)
  have handle : entry.awaits.handle = answer.message.handle := by rw [same.2]; exact proper.handle
  have kind : entry.awaits.kind = answer.message.body.kind := by rw [same.2]; exact proper.kind
  refine rest.waits ?_
  have heads : (s.view entry.awaits.handle).answered =
      answer :: answers.filter (·.message.handle = entry.awaits.handle) := by
    show s.answers.filter _ = _
    rw [oldest,List.filter_cons_of_pos (by simpa using handle.symm)]
  exact (working.rights entry.awaits.handle).answers heads kind (fun _ => as')
theorem Working.message (working : Working limits s) {answer : Answer} {answers : List Answer}
    (oldest : s.answers = answer :: answers) (ready : (({ s with answers } : State).onMessage answer).phase = .ready) :
    Working limits (({ s with answers } : State).onMessage answer) := by
  obtain ⟨entry,pending,first,same,found,others,rest⟩ := working.first oldest
  unfold onMessage at ready ⊢
  by_cases gone : s.phase ≠ .ready
  · rw [if_pos gone] at ready
    exact absurd ready gone
  rw [if_neg gone] at ready ⊢
  dsimp only at ready ⊢
  rw [found] at ready ⊢
  dsimp only at ready ⊢
  rw [others] at ready ⊢
  have told := fun outcome as' => working.tells oldest same outcome as' rest
  cases outcome : answer.outcome with
  | error code =>
    dsimp only
    by_cases settled : entry.settled = true
    · rw [if_pos settled]
      exact rest
    · rw [if_neg settled]
      exact told (.error code) (by rw [outcome])
  | done =>
    rw [outcome] at ready
    dsimp only at ready ⊢
    by_cases fit : acceptable entry .done = true
    · rw [if_pos fit]
      by_cases settled : entry.settled = true
      · rw [if_pos settled]
        exact rest
      · rw [if_neg settled]
        exact told .done (by rw [outcome])
    · rw [if_neg fit] at ready
      exact absurd ready (retire_phase _ _ _)
  | frame frame =>
    rw [outcome] at ready
    dsimp only at ready ⊢
    by_cases fit : acceptable entry (.frame frame) = true
    · rw [if_pos fit]
      by_cases settled : entry.settled = true
      · rw [if_pos settled]
        exact rest
      · rw [if_neg settled]
        exact told (.frame frame) (by rw [outcome])
    · rw [if_neg fit] at ready
      exact absurd ready (retire_phase _ _ _)

/-! ### What awaits a settled request goes on -/

theorem Working.taken (working : Working limits s) {waiting : List (Await × Outcome)}
    (fewer : waiting.Sublist s.waiting) : Working limits { s with waiting } :=
  ⟨{ working.books with },fun handle =>
    (working.rights handle).fewer (List.Sublist.refl _) (fewer.filter (fun entry => entry.1.handle = handle))⟩
theorem waits_view {awaits : Await} {outcome : Outcome} (waits : (awaits,outcome) ∈ s.waiting) :
    (awaits,outcome) ∈ (s.view awaits.handle).resumed := List.mem_filter.mpr ⟨waits,by simp⟩
theorem closedAt_released (working : Working limits s) {handle : Nat} (unclosed : s.closedAt handle ≠ true) :
    (s.view handle).released = false := by
  cases found : s.records handle with
  | none => exact absurd (by rw [closedAt,found]; rfl) unclosed
  | some record =>
    have same := (working.rights handle).closed record found
    rw [closedAt,found] at unclosed
    show ((s.records handle).map Record.released).getD false = false
    rw [found]
    show record.released = false
    rw [← same]
    simpa using unclosed
theorem Working.refusedNew (working : Working limits s) {n handle : Nat} {code : Code}
    {waiting : List (Await × Outcome)} (fewer : waiting.Sublist s.waiting)
    (waits : (Await.new n handle,Outcome.error code) ∈ s.waiting) (unclosed : s.closedAt handle ≠ true) :
    Working limits (({ s with waiting } : State).release handle) := by
  have right := working.rights handle
  have kept := closedAt_released working unclosed
  obtain ⟨gone,asked⟩ := right.refused (.inr ⟨_,waits_view waits,rfl,rfl⟩) kept
  obtain ⟨noneAsked,noneAnswered,_⟩ := right.unfreed kept
  exact (working.taken fewer).release
    (((working.taken fewer).rights handle).releases gone ⟨asked,noneAsked⟩ noneAnswered)
theorem Working.grantedNew (working : Working limits s) {n handle : Nat} {outcome : Outcome}
    {waiting : List (Await × Outcome)} (fewer : waiting.Sublist s.waiting)
    (waits : (Await.new n handle,outcome) ∈ s.waiting)
    (done : outcome.fails = false) :
    Working limits (({ s with waiting } : State).editRecord handle (fun record => { record with opened := true })) := by
  have taken := working.taken fewer
  refine ⟨taken.books.edit (fun other => ?_),fun other => ?_⟩
  · simp only [Function.update_apply]
    split_ifs with same
    · subst same
      cases s.records other <;> rfl
    · rfl
  · by_cases own : other = handle
    · subst own
      cases found : s.records other with
      | none =>
        have idle := ((working.rights other).known found).2.2.1
        have waits' := waits_view waits
        rw [show (s.view (Await.new n other).handle).resumed = [] from idle] at waits'
        cases waits'
      | some record =>
        have opened := (working.rights other).opens found (.inr ⟨_,waits_view waits,rfl,done⟩)
          (fewer.filter (fun entry => entry.1.handle = other))
        simpa [view,editRecord,session,found] using opened
    · have right := taken.rights other
      simpa [view,editRecord,session,own] using right
theorem Working.unwanted (working : Working limits s) (ready : s.phase = .ready) {n handle : Nat}
    {outcome : Outcome} {waiting : List (Await × Outcome)} (fewer : waiting.Sublist s.waiting)
    (waits : (Await.new n handle,outcome) ∈ s.waiting) (done : outcome.fails = false) :
    Working limits (({ s with waiting } : State).free limits handle) := by
  refine (working.taken fewer).free ready (fun record found kept => ?_)
  have right := working.rights handle
  have kept' : (s.view handle).released = false := by
    show ((s.records handle).map Record.released).getD false = false
    rw [show s.records handle = some record from found]
    exact kept
  exact right.listed (.inl (right.granted (.inl (.inr ⟨_,waits_view waits,rfl,done⟩)) kept'))
theorem Working.failedCall (working : Working limits s) (ready : s.phase = .ready) {n handle : Nat}
    {outcome : Outcome} {waiting : List (Await × Outcome)} (fewer : waiting.Sublist s.waiting)
    (waits : (Await.call n handle,outcome) ∈ s.waiting) : Working limits
      (({ s with waiting } : State).free limits handle) := by
  refine (working.taken fewer).frees ready (fun record found => ?_)
  have opened := (working.rights handle).called (.inr (.inr ⟨_,waits_view waits,rfl⟩))
  have opened' : ((s.records handle).map Record.opened).getD false = true := opened
  rw [show s.records handle = some record from found] at opened'
  exact opened'
theorem Working.freedHandle (working : Working limits s) {handle : Nat} {outcome : Outcome}
    {waiting : List (Await × Outcome)} (fewer : waiting.Sublist s.waiting)
    (waits : (Await.free handle,outcome) ∈ s.waiting) :
    Working limits (({ s with waiting } : State).release handle) := by
  have right := working.rights handle
  have waits' : Kind.free ∈ (s.view handle).resumed.map (·.1.kind) := List.mem_map.mpr ⟨_,waits_view waits,rfl⟩
  obtain ⟨gone,asked⟩ := right.freed (.inr waits')
  refine (working.taken fewer).release (((working.taken fewer).rights handle).releases gone ⟨?_,?_⟩ ?_)
  · show Kind.new ∉ (s.view handle).asked.map (·.body.kind)
    rw [asked]
    simp
  · show Kind.free ∉ (s.view handle).asked.map (·.body.kind)
    rw [asked]
    simp
  · have frees := right.frees
    have one := List.count_pos_iff.mpr waits'
    have most := Bool.toNat_le (s.view handle).released
    refine List.count_eq_zero.mp ?_
    unfold View.frees at frees
    show ((s.view handle).answered.map (·.message.body.kind)).count .free = 0
    omega
theorem Working.goOn (working : Working limits s) (ready : s.phase = .ready) {awaits : Await} {outcome : Outcome}
    {waiting : List (Await × Outcome)} (fewer : waiting.Sublist s.waiting) (waits : (awaits,outcome) ∈ s.waiting) :
    Working limits (({ s with waiting } : State).goOn limits awaits outcome) := by
  have granted : ∀ n handle, awaits = .new n handle → outcome.fails = false → Working limits
      (if s.closedAt handle ∨ ∃ record ∈ s.records handle, ∃ g ∈ record.signal, g ∈ s.aborted
        then (({ s with waiting } : State).free limits handle).settle (.transfer n) (.error .aborted)
        else (({ s with waiting } : State).editRecord handle (fun record => { record with opened := true })).settle
          (.transfer n) .done) := by
    rintro n handle rfl done
    split_ifs
    · exact (working.unwanted ready fewer waits done).settle _ _
    · exact (working.grantedNew fewer waits done).settle _ _
  have told : ∀ n handle, awaits = .call n handle → Working limits
      (if s.closedAt handle then (({ s with waiting } : State).free limits handle).settle (.call n) (.error .aborted)
        else ({ s with waiting } : State).settle (.call n) outcome) := by
    rintro n handle rfl
    split_ifs
    · exact (working.failedCall ready fewer waits).settle _ _
    · exact (working.taken fewer).settle _ _
  cases awaits with
  | new n handle =>
    cases outcome with
    | error code =>
      have unclosed : Working limits
          (if s.closedAt handle then ({ s with waiting } : State)
            else ({ s with waiting } : State).release handle) := by
        split_ifs with closed
        · exact working.taken fewer
        · exact working.refusedNew fewer waits closed
      exact unclosed.settle _ _
    | done => exact granted n handle rfl rfl
    | frame frame => exact granted n handle rfl rfl
  | call n handle =>
    cases outcome with
    | error code => exact (working.failedCall ready fewer waits).settle _ _
    | done => exact told n handle rfl
    | frame frame => exact told n handle rfl
  | free handle =>
    cases outcome <;> exact (working.freedHandle fewer waits).settle _ _

/-! ### Every step -/

theorem Working.abort (working : Working limits s) (ready : s.phase = .ready) (signal : Nat) :
    Working limits (s.abort limits signal) := by
  unfold State.abort
  by_cases aborted : signal ∈ s.aborted
  · rw [if_pos aborted]
    exact working
  · rw [if_neg aborted]
    have all : ∀ (handles : List Nat) (s : State), Working limits s → s.phase = .ready →
        Working limits (handles.foldl (fun s handle =>
          if handle ∈ s.handles ∧ ∃ record ∈ s.records handle, record.signal = some signal then s.free limits handle
            else s) s) := by
      intro handles
      induction handles with
      | nil => exact fun _ working _ => working
      | cons handle rest ih =>
        intro s working ready
        rw [List.foldl_cons]
        by_cases listens : handle ∈ s.handles ∧ ∃ record ∈ s.records handle, record.signal = some signal
        · rw [if_pos listens]
          exact ih _ (working.free ready (fun _ _ _ => listens.1)) (by rw [free_phase]; exact ready)
        · rw [if_neg listens]
          exact ih s working ready
    exact all s.handles _ (working.other s.calls s.issued s.outcomes _) ready

variable (core : Core)

theorem working_new : Working limits State.new := by
  constructor
  · constructor <;> simp [State.new,between]
    omega
  · intro handle
    exact (by simpa [view,State.new,session] using right_unknown)
theorem Working.step {s : State} (working : Working limits s) (ready : s.phase = .ready) (event : Event)
    (still : (s.step limits core event).phase = .ready) : Working limits (s.step limits core event) := by
  cases event with
  | transfer value signal => exact working.transfer ready value signal
  | call handle op raw =>
    cases found : s.records handle with
    | none => simpa only [State.step,found] using working
    | some record =>
      simp only [State.step,found]
      by_cases opened : record.opened = true
      · rw [if_pos opened]
        exact working.call ready found opened op raw
      · rw [if_neg opened]
        exact working
  | free handle =>
    cases found : s.records handle with
    | none => simpa only [State.step,found] using working
    | some record =>
      simp only [State.step,found]
      by_cases opened : record.opened = true
      · rw [if_pos opened]
        exact working.frees ready (fun other same => by cases found.symm.trans same; exact opened)
      · rw [if_neg opened]
        exact working
  | abort signal => exact working.abort ready signal
  | stop => exact absurd still (retire_phase _ _ _)
  | fault code => exact absurd still (retire_phase _ _ _)
  | timeout id =>
    simp only [State.step] at still ⊢
    by_cases waits : (s.pending.any (·.id = id)) = true
    · rw [if_pos waits] at still
      exact absurd still (retire_phase _ _ _)
    · rw [if_neg waits]
      exact working
  | receive => exact working.receive core
  | message =>
    cases oldest : s.answers with
    | nil => simpa only [State.step,oldest] using working
    | cons answer answers =>
      simp only [State.step,oldest] at still ⊢
      exact working.message oldest still
  | resume index =>
    cases waits : s.waiting[index]? with
    | none => simpa only [State.step,waits] using working
    | some entry =>
      simp only [State.step,waits]
      exact working.goOn ready (List.eraseIdx_sublist _ _) (List.mem_of_getElem? waits)

end State
end RelaySwarm.TransferWorker
