import RelaySwarm.TransferWorkerAgreement

/-!
The page and its transfer worker over every course of events. What holds of each state
(`Agrees`) is read off the invariants; a promise is kept once what awaits it has been
answered or timed out and has gone on (`Fair`), and the main result puts them together.
-/
namespace RelaySwarm.TransferWorker
open JsonText
namespace State
variable {limits : Limits} {core : Core}

/-! ### The requests to free handles -/

theorem aligned_awaits {entries : List Entry} {messages : List Message}
    (aligned : List.Forall₂ Matches entries messages) :
    entries.map (·.awaits) = messages.map (·.awaits) := by
  induction aligned with
  | nil => rfl
  | cons same _ ih => rw [List.map_cons,List.map_cons,same.2,ih]
def freeing (s : State) : List Nat := (s.pending.filter (fun entry => entry.awaits.kind = .free)).map (·.awaits.handle)
theorem Working.freeing {s : State} (working : Working limits s) : s.freeing.Nodup ∧ s.freeing ⊆ s.handles := by
  have books := working.books
  constructor
  · refine List.nodup_iff_count_le_one.mpr (fun handle => ?_)
    have count : s.freeing.count handle =
        (s.pending.map (·.awaits)).countP (fun awaits => awaits.handle = handle ∧ awaits.kind = .free) := by
      rw [State.freeing,List.count_eq_countP,List.countP_map,List.countP_filter,List.countP_map]
      refine List.countP_congr (fun entry _ => ?_)
      simp
    have seen : ∀ messages : List Message, (∀ message ∈ messages, message ∈ s.between) →
        (messages.map (·.awaits)).countP (fun awaits => awaits.handle = handle ∧ awaits.kind = .free) =
          ((messages.filter (·.handle = handle)).map (·.body.kind)).count .free := by
      intro messages all
      rw [List.count_eq_countP,List.countP_map,List.countP_map,List.countP_filter]
      refine List.countP_congr (fun message member => ?_)
      have proper := books.proper message (all message member)
      simp [proper.handle,proper.kind,and_comm]
    have frees := (working.rights handle).frees
    have most := Bool.toNat_le (s.view handle).released
    have answered : ((s.answers.filter (·.message.handle = handle)).map (·.message.body.kind)).count .free =
        (((s.answers.map (·.message)).filter (·.handle = handle)).map (·.body.kind)).count .free := by
      rw [List.filter_map,List.map_map]
      rfl
    rw [count,aligned_awaits books.aligned,between,List.map_append,List.countP_append,
      seen _ (fun message member => List.mem_append_left _ member),
      seen _ (fun message member => List.mem_append_right _ member),← answered]
    unfold View.frees View.kinds at frees
    show ((s.view handle).answered.map (·.message.body.kind)).count .free +
      ((s.view handle).asked.map (·.body.kind)).count .free ≤ 1
    omega
  · intro handle member
    obtain ⟨entry,kept,rfl⟩ := List.mem_map.mp member
    obtain ⟨waits,free⟩ := List.mem_filter.mp kept
    have kind : entry.awaits.kind = .free := by simpa using free
    refine (working.rights entry.awaits.handle).listed (.inr (.inr ?_))
    have seen := books.seen waits
    rw [kind] at seen
    exact seen.imp_right (fun found => List.mem_map.mpr found)
theorem Working.waiting {s : State} (working : Working limits s) :
    s.pending.length ≤ limits.maxPending + limits.maxTransfers := by
  have parts := (List.filter_append_perm (fun entry : Entry => decide (entry.awaits.kind = .free)) s.pending).length_eq
  have frees := (List.subperm_of_subset working.freeing.1 working.freeing.2).length_le
  have opens := working.books.opens
  have few := working.books.few
  have others : (s.pending.filter (fun entry => !decide (entry.awaits.kind = .free))) =
      s.pending.filter (fun entry => entry.awaits.kind ≠ .free) := by simp
  rw [List.length_append,others] at parts
  rw [State.freeing,List.length_map] at frees
  omega

end State

/-! ### Every state -/

/-- What holds of the page and the worker in every state. -/
structure Agrees (limits : Limits) (s : State) : Prop where
  /-- The requests that wait are those on their way, in order. -/
  unanswered : s.phase = .ready → List.Forall₂ Matches s.pending s.between
  bytes : s.pendingBytes = (s.pending.map (·.bytes)).sum ∧ s.pendingBytes ≤ limits.maxPendingBytes
  requests : s.pending.length ≤ limits.maxPending + limits.maxTransfers
  active : s.activeBytes = (s.handles.map s.sizeOf).sum ∧ s.activeBytes ≤ limits.maxActiveBytes
  handles : s.handles.length ≤ limits.maxTransfers
  retired : s.phase ≠ .ready → s.pendingBytes = 0 ∧ s.pending = [] ∧ s.activeBytes = 0 ∧ s.handles = []
  /-- What the worker has, the page has not let go. -/
  inside : s.live.map (·.handle) ⊆ s.handles
  refusals : ∀ answer ∈ s.handled, ∀ code, answer.outcome = .error code →
    code ≠ .transferLimit ∧ code ≠ .unknownTransfer ∧ code ≠ .invalidHandle
  /-- The worker handles requests as they were sent, and calls as they were made. -/
  order : s.handled.map (·.message) <+: s.sent ∧ (s.handled.filterMap (·.message.awaits.number)).Pairwise (· < ·)
  /-- Every promise is in one place: kept, or what awaits it is to go on, or unanswered. -/
  places : s.places.Perm s.issued ∧ s.places.Nodup

namespace State
variable {limits : Limits} {core : Core}

theorem Honest.agrees {s : State} (honest : Honest limits core s) : Agrees limits s := by
  have logged := honest.logged
  have placed : s.places.Perm s.issued := by
    have placed := honest.promised.placed
    rwa [List.append_nil] at placed
  have order : (s.handled.filterMap (·.message.awaits.number)).Pairwise (· < ·) := by
    have handled := logged.ordered.sublist logged.past.sublist
    rw [List.pairwise_map] at handled
    rw [List.pairwise_filterMap]
    exact handled.imp (fun before n first m second => before n m first second)
  have refusals : ∀ answer ∈ s.handled, ∀ code, answer.outcome = .error code →
      code ≠ .transferLimit ∧ code ≠ .unknownTransfer ∧ code ≠ .invalidHandle := by
    intro answer member code failed
    rw [logged.errors answer member code failed]
    exact ⟨nofun,nofun,nofun⟩
  by_cases ready : s.phase = .ready
  · have working := honest.working ready
    have books := working.books
    refine ⟨fun _ => books.aligned,⟨books.bytes,books.room⟩,working.waiting,⟨books.active,books.most⟩,books.opens,
      fun gone => absurd ready gone,?_,refusals,⟨logged.past,order⟩,placed,
        placed.nodup_iff.mpr honest.promised.distinct⟩
    intro handle member
    obtain ⟨session,lives,rfl⟩ := List.mem_map.mp member
    exact (working.sessions lives).1
  · obtain ⟨pending,handles,pendingBytes,activeBytes,_,_,live⟩ := logged.idle ready
    refine ⟨fun ready' => absurd ready' ready,?_,?_,?_,?_,fun _ => ⟨pendingBytes,pending,activeBytes,handles⟩,
      ?_,refusals,⟨logged.past,order⟩,placed,placed.nodup_iff.mpr honest.promised.distinct⟩
    · rw [pending,pendingBytes]
      exact ⟨rfl,Nat.zero_le _⟩
    · rw [pending]
      exact Nat.zero_le _
    · rw [handles,activeBytes]
      exact ⟨rfl,Nat.zero_le _⟩
    · rw [handles]
      exact Nat.zero_le _
    · rw [live]
      exact List.nil_subset _

end State

/-! ### Every course -/

variable (limits : Limits) (core : Core) (events : Nat → Event)

/-- The states that the page and the worker go through. -/
def course : Nat → State
  | 0 => .new
  | k + 1 => (course k).step limits core (events k)
/-- Every request is answered or runs out of time, and what waits goes on. -/
structure Fair : Prop where
  answered : ∀ k, ∀ entry ∈ (course limits core events k).pending, ∃ later, k ≤ later ∧
    ∀ other ∈ (course limits core events later).pending, other.id ≠ entry.id
  resumed : ∀ k, ∀ entry ∈ (course limits core events k).waiting, ∃ later, k ≤ later ∧ ∃ index,
    events later = .resume index ∧ (course limits core events later).waiting[index]? = some entry
/-- A call fails, or its frame is what the transfer answers to the calls that the worker
    was given on the handle before, and to this one with the arguments it was made with. -/
def Answered (k n : Nat) (outcome : Outcome) : Prop :=
  (∃ code, outcome = .error code) ∨ ∃ before answer after made handle op raw record config arguments,
    (course limits core events k).handled = before ++ answer :: after ∧ answer.message.awaits = .call n handle ∧
    answer.message.body = .call arguments ∧
    made < k ∧ events made = .call handle op raw ∧ (course limits core events made).calls = n ∧
    (course limits core events made).records handle = some record ∧
    workerArguments op raw limits.maxSegmentBytes record.config.peerOnly = some arguments ∧
    (course limits core events k).configOf handle = some config ∧
    outcome = .frame (core.answer config (given handle before ++ [arguments]))

namespace State
variable {limits core events}

theorem course_honest (k : Nat) : Honest limits core (course limits core events k) := by
  induction k with
  | zero => exact honest_new
  | succ k ih => exact ih.step (events k)
theorem course_follows (k : Nat) :
    Follows limits (course limits core events k) (events k) (course limits core events (k + 1)) :=
  ((course_honest k).kept (events k)).1.follows
theorem course_grows {k later : Nat} (after : k ≤ later) :
    (course limits core events k).outcomes <+: (course limits core events later).outcomes ∧
      (course limits core events k).issued ⊆ (course limits core events later).issued := by
  induction later, after using Nat.le_induction with
  | base => exact ⟨List.prefix_rfl,List.Subset.refl _⟩
  | succ later _ ih =>
    exact ⟨ih.1.trans (course_follows later).outcomes,List.Subset.trans ih.2 (course_follows later).issued⟩
theorem course_waits {k later : Nat} (after : k ≤ later) {entry : Entry}
    (waits : entry ∈ (course limits core events later).pending)
    (unsettled : entry.settled = false) (old : entry.awaits.promise ∈ (course limits core events k).issued) :
    ∃ first ∈ (course limits core events k).pending, first.id = entry.id ∧ first.awaits = entry.awaits ∧
      first.settled = false := by
  induction later, after using Nat.le_induction generalizing entry with
  | base => exact ⟨entry,waits,rfl,rfl,unsettled⟩
  | succ later after ih =>
    rcases (course_follows later).pending entry waits unsettled with ⟨before,waits',id,awaits,unsettled'⟩ | new
    · rw [← id,← awaits]
      exact ih waits' unsettled' (by rw [awaits]; exact old)
    · exact absurd ((course_grows after).2 old) new
theorem course_made {k : Nat} {message : Message} (sent : message ∈ (course limits core events k).sent)
    {arguments : Arguments}
    (call : message.body = .call arguments) : ∃ made handle op raw record, made < k ∧
      events made = .call handle op raw ∧
      (course limits core events made).records handle = some record ∧ message.handle = handle ∧
      message.awaits = .call (course limits core events made).calls handle ∧
      workerArguments op raw limits.maxSegmentBytes record.config.peerOnly = some arguments := by
  induction k with
  | zero => cases sent
  | succ k ih =>
    rcases (course_follows k).sent message sent with old | new
    · obtain ⟨made,handle,op,raw,record,before,rest⟩ := ih old
      exact ⟨made,handle,op,raw,record,before.trans (Nat.lt_succ_self k),rest⟩
    · obtain ⟨handle,op,raw,record,event,found,own,awaits,read⟩ := new arguments call
      exact ⟨k,handle,op,raw,record,Nat.lt_succ_self k,event,found,own,awaits,read⟩
theorem course_answered {k n : Nat} {outcome : Outcome}
    (told : (.call n,outcome) ∈ (course limits core events k).outcomes) :
    Answered limits core events k n outcome := by
  have honest : Honest limits core (course limits core events k) := course_honest k
  have logged := honest.logged
  rcases logged.outcomes _ told n rfl with failed | ⟨answer,handled,frame,number,answered,same⟩
  · exact .inl failed
  · obtain ⟨before,after,split⟩ := List.append_of_mem handled
    obtain ⟨config,arguments,found,call,computed⟩ := logged.computed before answer after split frame answered
    have sent : answer.message ∈ (course limits core events k).sent :=
      logged.past.subset (List.mem_map_of_mem handled)
    obtain ⟨made,handle,op,raw,record,earlier,event,known,rfl,awaits,read⟩ := course_made sent call
    rw [awaits] at number
    refine .inr ⟨before,answer,after,made,answer.message.handle,op,raw,record,config,arguments,split,?_,call,
      earlier,event,Option.some.inj number,known,read,found,same.trans (congrArg Outcome.frame computed)⟩
    rw [awaits,Option.some.inj number]

/-! ### A promise is kept -/

theorem course_placed {k : Nat} {promise : Promise} (issued : promise ∈ (course limits core events k).issued) :
    promise ∈ (course limits core events k).outcomes.map (·.1) ∨
      (∃ entry ∈ (course limits core events k).waiting, entry.1.promise = promise) ∨
      ∃ entry ∈ (course limits core events k).pending, entry.settled = false ∧ entry.awaits.promise = promise := by
  have honest : Honest limits core (course limits core events k) := course_honest k
  have placed := honest.agrees.places.1.mem_iff.mpr issued
  rcases List.mem_append.mp placed with told | waits
  · rcases List.mem_append.mp told with kept | goes
    · exact .inl kept
    · exact .inr (.inl (List.mem_map.mp goes))
  · obtain ⟨entry,unsettled,same⟩ := List.mem_map.mp waits
    obtain ⟨pending,isOpen⟩ := List.mem_filter.mp unsettled
    exact .inr (.inr ⟨entry,pending,by simpa using isOpen,same⟩)
theorem course_resumed (fair : Fair limits core events) {k : Nat} {entry : Await × Outcome}
    (waits : entry ∈ (course limits core events k).waiting) : ∃ later, k ≤ later ∧
      entry.1.promise ∈ (course limits core events later).outcomes.map (·.1) := by
  obtain ⟨later,after,index,event,found⟩ := fair.resumed k entry waits
  refine ⟨later + 1,by omega,?_⟩
  obtain ⟨s',outcome,_,settled⟩ := goOn_settles limits
    ({ course limits core events later with
      waiting := (course limits core events later).waiting.eraseIdx index } : State)
    entry.1 entry.2
  have stepped : course limits core events (later + 1) = s'.settle entry.1.promise outcome := by
    rw [course,event,← settled]
    simp only [State.step,found]
  rw [stepped]
  simp [State.settle]
theorem course_settles (fair : Fair limits core events) {k : Nat} {promise : Promise}
    (issued : promise ∈ (course limits core events k).issued) : ∃ later, k ≤ later ∧ ∀ after, later ≤ after →
      ((course limits core events after).outcomes.map (·.1)).count promise = 1 := by
  have kept : ∃ later, k ≤ later ∧ promise ∈ (course limits core events later).outcomes.map (·.1) := by
    rcases course_placed issued with kept | ⟨entry,waits,rfl⟩ | ⟨entry,waits,unsettled,rfl⟩
    · exact ⟨k,le_rfl,kept⟩
    · exact course_resumed fair waits
    · obtain ⟨later,after,gone⟩ := fair.answered k entry waits
      rcases course_placed ((course_grows after).2 issued)
        with kept | ⟨other,waits',same⟩ | ⟨other,waits',unsettled',same⟩
      · exact ⟨later,after,kept⟩
      · obtain ⟨last,after',kept⟩ := course_resumed fair waits'
        rw [same] at kept
        exact ⟨last,after.trans after',kept⟩
      · -- The request that still waits would be this one, which waits no more.
        obtain ⟨first,waited,id,awaits,isOpen⟩ := course_waits after waits' unsettled' (by rw [same]; exact issued)
        have honest : Honest limits core (course limits core events k) := course_honest k
        have apart := (List.nodup_append.mp honest.agrees.places.2).2.1
        have one : first = entry := List.inj_on_of_nodup_map apart (List.mem_filter.mpr ⟨waited,by simp [isOpen]⟩)
          (List.mem_filter.mpr ⟨waits,by simp [unsettled]⟩) (by rw [awaits,same])
        exact absurd (id.symm.trans (congrArg Entry.id one)) (gone other waits')
  obtain ⟨later,after,member⟩ := kept
  refine ⟨later,after,fun last beyond => ?_⟩
  have grows : (course limits core events later).outcomes <+: (course limits core events last).outcomes :=
    (course_grows beyond).1
  have honest : Honest limits core (course limits core events last) := course_honest last
  refine List.count_eq_one_of_mem ?_ ((grows.map (·.1)).subset member)
  exact (List.nodup_append.mp (List.nodup_append.mp honest.agrees.places.2).1).1

end State

/-! ### The main result -/

structure Agreement : Prop where
  states : ∀ k, Agrees limits (course limits core events k)
  /-- The worker is given up when it is stopped or fails, or a request runs out of time. -/
  ends : ∀ k, (course limits core events (k + 1)).phase = .ready ↔
    (course limits core events k).phase = .ready ∧ ¬ (course limits core events k).Ends (events k)
  frames : ∀ k n outcome, (.call n,outcome) ∈ (course limits core events k).outcomes →
    Answered limits core events k n outcome
  settles : Fair limits core events → ∀ k, ∀ promise ∈ (course limits core events k).issued, ∃ later, k ≤ later ∧
    ∀ after, later ≤ after → ((course limits core events after).outcomes.map (·.1)).count promise = 1

theorem client_runtime_agree : Agreement limits core events :=
  ⟨fun k => (State.course_honest k).agrees,fun k => ((State.course_honest k).kept (events k)).2,
    fun _ _ _ told => State.course_answered told,fun fair _ _ issued => State.course_settles fair issued⟩
private def quietCore : Core :=
  ⟨fun _ => true,fun _ _ => ⟨[],some .null,some (.bool false),some (.bool false),.null,none⟩,fun _ _ => rfl⟩
private def oneTransfer : Nat → Event
  | 0 => .transfer (some (Config.value ⟨1,List.replicate 64 48,[List.replicate 64 48],200,1,0,false,false⟩)) none
  | 1 => .receive
  | 2 => .message
  | 3 => .resume 0
  | 4 => .call 1 .tick ⟨some (.number 5),none,none,none⟩
  | 5 => .receive
  | 6 => .message
  | 7 => .resume 0
  | _ => .stop
/-- A transfer is made and ticked before the worker is stopped. -/
theorem client_runtime_agree_tick : Agreement ⟨1,65536,65536,4,65536⟩ quietCore oneTransfer ∧
    (course ⟨1,65536,65536,4,65536⟩ quietCore oneTransfer 8).outcomes.length = 2 ∧
    (course ⟨1,65536,65536,4,65536⟩ quietCore oneTransfer 9).phase = .stopped :=
  ⟨client_runtime_agree ⟨1,65536,65536,4,65536⟩ quietCore oneTransfer,by decide +kernel,by decide +kernel⟩

end RelaySwarm.TransferWorker
