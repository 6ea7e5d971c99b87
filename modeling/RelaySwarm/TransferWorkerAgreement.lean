import RelaySwarm.TransferWorkerHistory
import RelaySwarm.TransferWorkerLogs

/-!
The page and the transfer worker agree. Every step keeps the worker in order while it is
in use, every promise in one place and the logs true (`Honest`); so they are in every run,
and in a run where requests are answered or time out and what waits goes on, every promise
is kept once.
-/
namespace RelaySwarm.TransferWorker
open JsonText
namespace State
variable {limits : Limits} {core : Core}

/-- A step on its way: the promises, with those that are owed, the logs, and what there
    was before the step. -/
structure Kept (limits : Limits) (core : Core) (start : State) (event : Event) (s : State)
    (owed : List Promise) : Prop where
  promised : Promised s owed
  logged : Logged core s
  follows : Follows limits start event s

namespace Kept
variable {start s : State} {event : Event} {owed : List Promise}

theorem fails {promise : Promise} (kept : Kept limits core start event s (promise :: owed)) (code : Code) :
    Kept limits core start event (s.settle promise (.error code)) owed :=
  ⟨kept.promised.settle _,kept.logged.fails promise code,kept.follows.settle promise _⟩
theorem free (kept : Kept limits core start event s owed) (handle : Nat) :
    Kept limits core start event (s.free limits handle) owed :=
  ⟨kept.promised.free handle,kept.logged.free handle,kept.follows.free kept.promised handle⟩
theorem release (kept : Kept limits core start event s owed) (handle : Nat) :
    Kept limits core start event (s.release handle) owed :=
  ⟨kept.promised.release handle,kept.logged.release handle,kept.follows.release handle⟩
theorem aborts (kept : Kept limits core start event s owed) (aborted : List Nat) :
    Kept limits core start event { s with aborted } owed :=
  ⟨{ kept.promised with },{ kept.logged with },{ kept.follows with }⟩
theorem transfer (kept : Kept limits core s event s []) (value : Option Value) (signal : Option Nat) :
    Kept limits core s event (s.transfer limits value signal) [] := by
  have issued :
      Kept limits core s event { s with calls := s.calls + 1, issued := s.issued ++ [Promise.transfer s.calls] }
      [.transfer s.calls] := ⟨kept.promised.issues (.inl rfl),kept.logged.issues _,kept.follows.issues _ _⟩
  unfold State.transfer
  dsimp only
  by_cases gone : s.phase ≠ .ready
  · rw [if_pos gone]
    exact issued.fails _
  rw [if_neg gone]
  by_cases aborted : ∃ g ∈ signal, g ∈ s.aborted
  · rw [if_pos aborted]
    exact issued.fails _
  rw [if_neg aborted]
  cases read : workerConfig value limits with
  | none => exact issued.fails _
  | some config =>
    dsimp only
    by_cases full : limits.maxTransfers ≤ s.handles.length ∨ limits.maxActiveBytes < s.activeBytes + config.size
    · rw [if_pos full]
      exact issued.fails _
    · rw [if_neg full]
      have fresh : s.records (s.nextHandle + 1) = none := by
        by_contra filled
        have known := kept.logged.known (s.nextHandle + 1)
          (by rw [configOf,Option.isSome_map]; exact Option.ne_none_iff_isSome.mp filled)
        omega
      obtain ⟨opened,new⟩ := issued.logged.opens (not_not.mp gone) config signal
      have follows : Follows limits s event (({ s with
          calls := s.calls + 1, issued := s.issued ++ [Promise.transfer s.calls] } : State).opens config signal) :=
        { issued.follows with }
      refine ⟨(issued.promised.opens config signal fresh).rpc _ _ _,
        opened.rpc 0 false le_rfl (fun _ => new) (fun _ number => by cases number),
        follows.rpc 0 false (fun old => ?_) (fun _ call => by cases call)⟩
      exact absurd (kept.promised.transfers _ old) (lt_irrefl _)
theorem call {handle : Nat} {op : Op} {raw : Raw} (kept : Kept limits core s (.call handle op raw) s [])
    {record : Record} (found : s.records handle = some record) :
    Kept limits core s (.call handle op raw) (s.call limits handle record op raw) [] := by
  have issued : Kept limits core s (.call handle op raw)
      { s with calls := s.calls + 1, issued := s.issued ++ [Promise.call s.calls] } [.call s.calls] :=
    ⟨kept.promised.issues (.inr rfl),kept.logged.issues _,kept.follows.issues _ _⟩
  unfold State.call
  dsimp only
  by_cases closed : record.closed = true
  · rw [if_pos closed]
    exact issued.fails _
  rw [if_neg closed]
  cases read : workerArguments op raw limits.maxSegmentBytes record.config.peerOnly with
  | none => exact (issued.free handle).fails _
  | some arguments =>
    dsimp only
    by_cases full : op = .delivered ∧ limits.maxPendingBytes < s.pendingBytes + carried arguments
    · rw [if_pos full]
      exact (issued.free handle).fails _
    · rw [if_neg full]
      refine ⟨issued.promised.rpc _ _ _,issued.logged.rpc _ _ ?_ (fun kind => (nomatch kind)) ?_,
        issued.follows.rpc _ _ (fun old => ?_) (fun arguments' same => ?_)⟩
      · exact kept.logged.known handle (by rw [configOf,found]; rfl)
      · intro n number
        cases number
        exact ⟨Nat.lt_succ_self _,fun message sent m number => kept.logged.numbered message sent m number⟩
      · exact absurd (kept.promised.made _ old) (lt_irrefl _)
      · cases same
        exact ⟨handle,op,raw,record,rfl,found,rfl,rfl,read⟩
theorem abort (kept : Kept limits core start event s []) (signal : Nat) :
    Kept limits core start event (s.abort limits signal) [] := by
  unfold State.abort
  by_cases aborted : signal ∈ s.aborted
  · rw [if_pos aborted]
    exact kept
  · rw [if_neg aborted]
    have all : ∀ (handles : List Nat) (s : State), Kept limits core start event s [] →
        Kept limits core start event (handles.foldl (fun s handle =>
          if handle ∈ s.handles ∧ ∃ record ∈ s.records handle, record.signal = some signal
            then s.free limits handle else s) s)
        [] := by
      intro handles
      induction handles with
      | nil => exact fun _ kept => kept
      | cons handle rest ih =>
        intro s kept
        rw [List.foldl_cons]
        split_ifs
        · exact ih _ (kept.free handle)
        · exact ih _ kept
    exact all s.handles _ (kept.aborts _)
theorem goOn (kept : Kept limits core start event s []) {index : Nat} {awaits : Await} {outcome : Outcome}
    (waits : s.waiting[index]? = some (awaits,outcome)) :
    Kept limits core start event (({ s with waiting := s.waiting.eraseIdx index } : State).goOn limits awaits outcome)
      [] := by
  have told : ∀ n, awaits.number = some n →
      Told ({ s with waiting := s.waiting.eraseIdx index } : State).handled n outcome :=
    kept.logged.waits _ (List.mem_of_getElem? waits)
  have taken : Kept limits core start event { s with waiting := s.waiting.eraseIdx index } [awaits.promise] :=
    ⟨kept.promised.taken waits,kept.logged.taken (List.eraseIdx_sublist _ _),{ kept.follows with }⟩
  generalize ({ s with waiting := s.waiting.eraseIdx index } : State) = after at told taken ⊢
  have granted : ∀ n handle, awaits = .new n handle → Kept limits core start event
      (if after.closedAt handle ∨ ∃ record ∈ after.records handle, ∃ g ∈ record.signal, g ∈ after.aborted
        then (after.free limits handle).settle (.transfer n) (.error .aborted)
        else (after.editRecord handle (fun record => { record with opened := true })).settle (.transfer n)
          .done) [] := by
    rintro n handle rfl
    by_cases unwanted : after.closedAt handle ∨ ∃ record ∈ after.records handle, ∃ g ∈ record.signal, g ∈ after.aborted
    · rw [if_pos unwanted]
      exact (taken.free handle).fails _
    · rw [if_neg unwanted]
      have promised :=
        taken.promised.editRecord handle (fun record => { record with opened := true }) (fun _ kept => kept)
      have logged := taken.logged.editRecord handle (fun record => { record with opened := true }) (fun _ => rfl)
      have follows :
          Follows limits start event (after.editRecord handle (fun record => { record with opened := true })) :=
        { taken.follows with }
      exact ⟨promised.settle _,logged.settle (fun _ call => by cases call),follows.settle _ _⟩
  have answered : ∀ n handle, awaits = .call n handle → Kept limits core start event
      (if after.closedAt handle then (after.free limits handle).settle (.call n) (.error .aborted)
        else after.settle (.call n) outcome) [] := by
    rintro n handle rfl
    by_cases closed : after.closedAt handle = true
    · rw [if_pos closed]
      exact (taken.free handle).fails _
    · rw [if_neg closed]
      refine ⟨taken.promised.settle _,taken.logged.settle (fun m call => ?_),taken.follows.settle _ _⟩
      cases call
      exact told n rfl
  cases awaits with
  | new n handle =>
    cases outcome with
    | error code =>
      have step : Kept limits core start event (if after.closedAt handle then after
          else after.release handle) [.transfer n] := by
        split_ifs
        · exact taken
        · exact taken.release handle
      exact step.fails _
    | done => exact granted n handle rfl
    | frame frame => exact granted n handle rfl
  | call n handle =>
    cases outcome with
    | error code => exact (taken.free handle).fails _
    | done => exact answered n handle rfl
    | frame frame => exact answered n handle rfl
  | free handle =>
    have released := taken.release handle
    have kept : Kept limits core start event ((after.release handle).settle (.release handle) outcome) [] :=
      ⟨released.promised.settle _,released.logged.settle (fun _ call => (nomatch call)),released.follows.settle _ _⟩
    cases outcome <;> exact kept
theorem retire (kept : Kept limits core start event s []) (working : s.phase = .ready → Working limits s) (code : Code)
    (notify : Bool) :
    Kept limits core start event (s.retire code notify) [] := by
  by_cases ready : s.phase = .ready
  · exact ⟨kept.promised.retire code notify,kept.logged.retire (working ready).books.active code notify,
      kept.follows.retire code notify⟩
  · rw [retire_gone ready]
    exact kept
theorem receive (kept : Kept limits core start event s []) (working : s.phase = .ready → Working limits s) :
    Kept limits core start event (s.receive limits core) [] := by
  cases first : s.requests with
  | nil =>
    unfold State.receive
    rw [first]
    exact kept
  | cons message rest =>
    have ready : s.phase = .ready := by
      by_contra gone
      have empty := (kept.logged.idle gone).requests
      rw [first] at empty
      cases empty
    obtain ⟨outcome,live,liveBytes,after,responded⟩ := receive_took core (working ready) first
    have received := (working ready).receive core
    rw [after] at received ⊢
    exact ⟨{ kept.promised with },kept.logged.took ready first responded received,{ kept.follows with }⟩
end Kept

/-! ### An answer is one that its request can have -/

theorem acceptable_answer {s : State} (working : Working limits s) (logged : Logged core s) {entry : Entry}
    {answer : Answer} (waits : entry ∈ s.pending) (came : answer ∈ s.answers) (same : Matches entry answer.message)
    (done : answer.outcome.fails = false) : acceptable entry answer.outcome = true := by
  have handled := logged.answers answer came
  have proper := working.books.proper answer.message (List.mem_append_left _ (List.mem_map_of_mem came))
  have kind : entry.awaits.kind = answer.message.body.kind := by rw [same.2]; exact proper.kind
  cases outcome : answer.outcome with
  | error code =>
    rw [outcome] at done
    cases done
  | done =>
    have other := logged.granted answer handled outcome
    rw [← kind] at other
    cases awaits : entry.awaits with
    | new n handle => simp [acceptable,awaits]
    | call n handle => exact absurd (by rw [awaits]; rfl) other
    | free handle => simp [acceptable,awaits]
  | frame frame =>
    obtain ⟨before,after,split⟩ := List.append_of_mem handled
    obtain ⟨config,arguments,found,call,told⟩ := logged.computed before answer after split frame outcome
    rw [call] at kind
    have size := working.books.sized entry waits kind
    have handle : entry.awaits.handle = answer.message.handle := by rw [same.2]; exact proper.handle
    have config' : s.sizeOf answer.message.handle = config.size := by
      have sizes : s.sizeOf answer.message.handle = ((s.configOf answer.message.handle).map Config.size).getD 0 := by
        rw [configOf,Option.map_map]
        rfl
      rw [sizes,found]
      rfl
    cases awaits : entry.awaits with
    | call n handle' =>
      rw [handle,config'] at size
      simp only [acceptable,awaits]
      rw [size,told]
      exact core.valid _ _
    | new n handle' => rw [awaits] at kind; cases kind
    | free handle' => rw [awaits] at kind; cases kind
theorem Kept.message {start s : State} {event : Event} (kept : Kept limits core start event s [])
    (working : Working limits s)
    (ready : s.phase = .ready) {answer : Answer} {answers : List Answer} (oldest : s.answers = answer :: answers) :
    Kept limits core start event (({ s with answers } : State).onMessage answer) [] ∧
      (({ s with answers } : State).onMessage answer).phase = .ready := by
  obtain ⟨entry,pending,first,same,found,others,rest⟩ := working.first oldest
  have waits : entry ∈ s.pending := by rw [first]; exact List.mem_cons_self
  have came : answer ∈ s.answers := by rw [oldest]; exact List.mem_cons_self
  have promised := kept.promised.answered first answers
  have logged := kept.logged.answered oldest pending entry.bytes
  have follows := kept.follows.answered first answers
  -- What awaits the answer is told it, unless it was rejected before.
  have tells : ∀ outcome, (∀ n, entry.awaits.number = some n → Told s.handled n outcome) →
      Kept limits core start event (if entry.settled then s.answered answers pending entry.bytes
        else { s.answered answers pending entry.bytes with waiting := s.waiting ++ [(entry.awaits,outcome)] }) [] := by
    intro outcome told
    by_cases settled : entry.settled = true
    · rw [if_pos settled] at promised ⊢
      exact ⟨promised,logged,follows⟩
    · rw [if_neg settled] at promised ⊢
      exact ⟨promised.waits outcome,logged.tells told,{ follows with }⟩
  have kept' : Kept limits core start event (({ s with answers } : State).onMessage answer) [] ∧
      (({ s with answers } : State).onMessage answer).phase = s.phase := by
    unfold onMessage
    rw [if_neg (by simp [ready])]
    dsimp only
    rw [found]
    dsimp only
    rw [others]
    cases outcome : answer.outcome with
    | error code =>
      refine ⟨tells (.error code) (fun _ _ => .inl ⟨code,rfl⟩),?_⟩
      dsimp only
      split_ifs <;> rfl
    | done =>
      have fit := acceptable_answer working kept.logged waits came same (by rw [outcome]; rfl)
      rw [outcome] at fit
      dsimp only
      rw [if_pos fit]
      refine ⟨tells .done (fun n number => ?_),by split_ifs <;> rfl⟩
      cases awaits : entry.awaits with
      | call m handle => simp [acceptable,awaits] at fit
      | new m handle => rw [awaits] at number; cases number
      | free handle => rw [awaits] at number; cases number
    | frame frame =>
      have fit := acceptable_answer working kept.logged waits came same (by rw [outcome]; rfl)
      rw [outcome] at fit
      dsimp only
      rw [if_pos fit]
      refine ⟨tells (.frame frame) (fun n number => .inr ⟨answer,kept.logged.answers answer came,frame,?_,outcome,rfl⟩),
        by split_ifs <;> rfl⟩
      rw [← same.2]
      exact number
  exact ⟨kept'.1,kept'.2.trans ready⟩

/-! ### Every step -/

@[simp] theorem transfer_phase (s : State) (value : Option Value) (signal : Option Nat) :
    (s.transfer limits value signal).phase = s.phase := by
  unfold State.transfer
  dsimp only
  split_ifs
  · rfl
  · rfl
  · cases workerConfig value limits with
    | none => rfl
    | some config =>
      dsimp only
      split_ifs
      · rfl
      · exact rpc_phase _ _ _ _ _
@[simp] theorem call_phase (s : State) (handle : Nat) (record : Record) (op : Op) (raw : Raw) :
    (s.call limits handle record op raw).phase = s.phase := by
  unfold State.call
  dsimp only
  split_ifs
  · rfl
  · cases workerArguments op raw limits.maxSegmentBytes record.config.peerOnly with
    | none => exact free_phase _ _
    | some arguments =>
      dsimp only
      split_ifs
      · exact free_phase _ _
      · exact rpc_phase _ _ _ _ _
@[simp] theorem abort_phase (s : State) (signal : Nat) : (s.abort limits signal).phase = s.phase := by
  unfold State.abort
  split_ifs
  · rfl
  · have all : ∀ (handles : List Nat) (s : State), (handles.foldl (fun s handle =>
        if handle ∈ s.handles ∧ ∃ record ∈ s.records handle, record.signal = some signal
          then s.free limits handle else s)
        s).phase = s.phase := by
      intro handles
      induction handles with
      | nil => exact fun _ => rfl
      | cons handle rest ih =>
        intro s
        rw [List.foldl_cons,ih]
        split_ifs
        · exact free_phase _ _
        · rfl
    exact all s.handles _
variable (limits) in
theorem goOn_settles (s : State) (awaits : Await) (outcome : Outcome) :
    ∃ (s' : State) (outcome' : Outcome), s'.phase = s.phase ∧
    s.goOn limits awaits outcome = s'.settle awaits.promise outcome' := by
  have granted : ∀ n handle, ∃ (s' : State) (outcome' : Outcome), s'.phase = s.phase ∧
      (if s.closedAt handle ∨ ∃ record ∈ s.records handle, ∃ g ∈ record.signal, g ∈ s.aborted
        then (s.free limits handle).settle (.transfer n) (.error .aborted)
        else (s.editRecord handle (fun record => { record with opened := true })).settle (.transfer n) .done) =
          s'.settle (.transfer n) outcome' := by
    intro n handle
    split_ifs
    · exact ⟨_,_,free_phase s handle,rfl⟩
    · exact ⟨s.editRecord handle (fun record => { record with opened := true }),.done,rfl,rfl⟩
  have answered : ∀ n handle, ∃ (s' : State) (outcome' : Outcome), s'.phase = s.phase ∧
      (if s.closedAt handle then (s.free limits handle).settle (.call n) (.error .aborted)
        else s.settle (.call n) outcome) =
        s'.settle (.call n) outcome' := by
    intro n handle
    split_ifs
    · exact ⟨_,_,free_phase s handle,rfl⟩
    · exact ⟨_,_,rfl,rfl⟩
  cases awaits with
  | new n handle =>
    cases outcome with
    | error code =>
      refine ⟨if s.closedAt handle then s else s.release handle,.error code,?_,rfl⟩
      split_ifs
      · rfl
      · exact release_phase s handle
    | done => exact granted n handle
    | frame frame => exact granted n handle
  | call n handle =>
    cases outcome with
    | error code => exact ⟨_,_,free_phase s handle,rfl⟩
    | done => exact answered n handle
    | frame frame => exact answered n handle
  | free handle => cases outcome <;> exact ⟨_,_,release_phase s handle,rfl⟩
@[simp] theorem goOn_phase (s : State) (awaits : Await) (outcome : Outcome) :
    (s.goOn limits awaits outcome).phase = s.phase := by
  obtain ⟨s',outcome',same,after⟩ := goOn_settles limits s awaits outcome
  rw [after]
  exact same

/-- What the worker is given up for: the page stops it, it fails, or a request ran out of time. -/
def Ends (s : State) : Event → Prop
  | .stop => True
  | .fault _ => True
  | .timeout id => (s.pending.any (·.id = id)) = true
  | _ => False

structure Honest (limits : Limits) (core : Core) (s : State) : Prop where
  working : s.phase = .ready → Working limits s
  promised : Promised s []
  logged : Logged core s

theorem honest_new : Honest limits core State.new := ⟨fun _ => working_new,promised_new,logged_new core⟩
theorem Honest.kept {s : State} (honest : Honest limits core s) (event : Event) :
    Kept limits core s event (s.step limits core event) [] ∧
      ((s.step limits core event).phase = .ready ↔ s.phase = .ready ∧ ¬ s.Ends event) := by
  have start : Kept limits core s event s [] := ⟨honest.promised,honest.logged,follows_refl limits s event⟩
  have gone : ∀ code notify, Kept limits core s event (s.retire code notify) [] ∧
      ((s.retire code notify).phase = .ready ↔ s.phase = .ready ∧ ¬ True) :=
    fun code notify => ⟨start.retire honest.working code notify,
      ⟨fun ready => absurd ready (retire_phase s code notify),fun ends => absurd trivial ends.2⟩⟩
  have stays : ∀ s' : State, s'.phase = s.phase → (s'.phase = .ready ↔ s.phase = .ready ∧ ¬ False) := by
    intro s' same
    rw [same]
    exact ⟨fun ready => ⟨ready,not_false⟩,And.left⟩
  cases event with
  | transfer value signal => exact ⟨start.transfer value signal,stays _ (transfer_phase _ _ _)⟩
  | call handle op raw =>
    cases found : s.records handle with
    | none => simpa only [State.step,found] using ⟨start,stays s rfl⟩
    | some record =>
      simp only [State.step,found]
      by_cases opened : record.opened = true
      · rw [if_pos opened]
        exact ⟨start.call found,stays _ (call_phase _ _ _ _ _)⟩
      · rw [if_neg opened]
        exact ⟨start,stays s rfl⟩
  | free handle =>
    cases found : s.records handle with
    | none => simpa only [State.step,found] using ⟨start,stays s rfl⟩
    | some record =>
      simp only [State.step,found]
      by_cases opened : record.opened = true
      · rw [if_pos opened]
        exact ⟨start.free handle,stays _ (free_phase _ _)⟩
      · rw [if_neg opened]
        exact ⟨start,stays s rfl⟩
  | abort signal => exact ⟨start.abort signal,stays _ (abort_phase _ _)⟩
  | stop => exact gone _ _
  | fault code => exact gone _ _
  | timeout id =>
    simp only [State.step,Ends]
    by_cases waits : (s.pending.any (·.id = id)) = true
    · simpa only [waits,if_true] using gone .operationTimeout true
    · rw [if_neg waits]
      exact ⟨start,⟨fun ready => ⟨ready,waits⟩,And.left⟩⟩
  | receive =>
    refine ⟨start.receive honest.working,stays _ ?_⟩
    cases first : s.requests with
    | nil => simp only [State.step,State.receive,first]
    | cons message rest =>
      by_cases ready : s.phase = .ready
      · obtain ⟨outcome,live,liveBytes,after,_⟩ := receive_took core (honest.working ready) first
        simp only [State.step]
        rw [after]
        rfl
      · have empty := (honest.logged.idle ready).requests
        rw [first] at empty
        cases empty
  | message =>
    cases oldest : s.answers with
    | nil => simpa only [State.step,oldest] using ⟨start,stays s rfl⟩
    | cons answer answers =>
      have ready : s.phase = .ready := by
        by_contra gone
        have empty := (honest.logged.idle gone).answers
        rw [oldest] at empty
        cases empty
      obtain ⟨kept,still⟩ := start.message (honest.working ready) ready oldest
      simp only [State.step,oldest]
      exact ⟨kept,stays _ (still.trans ready.symm)⟩
  | resume index =>
    cases waits : s.waiting[index]? with
    | none => simpa only [State.step,waits] using ⟨start,stays s rfl⟩
    | some entry =>
      simp only [State.step,waits]
      exact ⟨start.goOn waits,stays _ (goOn_phase _ _ _)⟩
theorem Honest.step {s : State} (honest : Honest limits core s) (event : Event) :
    Honest limits core (s.step limits core event) := by
  obtain ⟨kept,phase⟩ := honest.kept event
  exact ⟨fun still => (honest.working (phase.mp still).1).step core (phase.mp still).1 event still,kept.promised,
    kept.logged⟩

end State
end RelaySwarm.TransferWorker
