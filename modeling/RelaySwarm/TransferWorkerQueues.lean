import RelaySwarm.TransferWorkerHandles
import Mathlib.Algebra.Order.BigOperators.Group.Finset

/-!
A transfer worker in use: every handle is in order, and so are the books over all of them
(`Working`). The requests that are not answered are, in their order, those whose answers
are on their way and those the worker has not taken.
-/
namespace RelaySwarm.TransferWorker
open JsonText

variable {s : State}
/-- An unanswered request on the page, and the message on its way for it. -/
def Matches (entry : Entry) (message : Message) : Prop := entry.id = message.id ∧ entry.awaits = message.awaits

namespace State
variable (limits : Limits)

/-- The handle from both ends. -/
def view (s : State) (handle : Nat) : View :=
  ⟨s.records handle,handle ∈ s.handles,s.requests.filter (·.handle = handle),
    s.answers.filter (·.message.handle = handle),s.waiting.filter (·.1.handle = handle),s.session handle⟩
def between (s : State) : List Message := s.answers.map (·.message) ++ s.requests

/-- A request says what the page had checked. -/
structure Proper (records : Nat → Option Record) (message : Message) : Prop where
  handle : message.awaits.handle = message.handle
  kind : message.awaits.kind = message.body.kind
  new : ∀ config, message.body = .new config → workerConfig (some config.value) limits = some config
  call : ∀ arguments, message.body = .call arguments → ∃ record, records message.handle = some record ∧
    workerArguments arguments.op arguments.raw limits.maxSegmentBytes record.config.peerOnly = some arguments

structure Books (s : State) : Prop where
  known : ∀ handle, (s.records handle).isSome = true ↔ 1 ≤ handle ∧ handle ≤ s.nextHandle
  proper : ∀ message ∈ s.between, Proper limits s.records message
  aligned : List.Forall₂ Matches s.pending s.between
  ids : (s.pending.map (·.id)).Pairwise (· < ·)
  latest : ∀ entry ∈ s.pending, entry.id ≤ s.nextRequest
  bytes : s.pendingBytes = (s.pending.map (·.bytes)).sum
  room : s.pendingBytes ≤ limits.maxPendingBytes
  few : (s.pending.filter (fun entry => entry.awaits.kind ≠ .free)).length ≤ limits.maxPending
  distinct : s.handles.Nodup
  listed : ∀ handle ∈ s.handles, (s.records handle).isSome = true
  opens : s.handles.length ≤ limits.maxTransfers
  active : s.activeBytes = (s.handles.map s.sizeOf).sum
  most : s.activeBytes ≤ limits.maxActiveBytes
  live : (s.live.map (·.handle)).Nodup
  liveBytes : s.liveBytes = (s.live.map (·.config.size)).sum
  sized : ∀ entry ∈ s.pending, entry.awaits.kind = .call → entry.size = s.sizeOf entry.awaits.handle
structure Working (s : State) : Prop where
  books : Books limits s
  rights : ∀ handle, Right (s.view handle)

variable {limits}

/-! ### A request is sent -/

def message (s : State) (awaits : Await) (body : Body) : Message := ⟨s.nextRequest + 1,awaits.handle,body,awaits⟩
variable (limits) in
def post (s : State) (awaits : Await) (body : Body) (bytes : Nat) : State :=
  { s with
    nextRequest := s.nextRequest + 1
    pending := s.pending ++ [⟨s.nextRequest + 1,awaits,bytes,
      if awaits.handle ∈ s.handles then s.sizeOf awaits.handle else limits.maxSegmentBytes,false⟩]
    pendingBytes := s.pendingBytes + bytes
    requests := s.requests ++ [s.message awaits body]
    sent := s.sent ++ [s.message awaits body] }

variable (limits) in
/-- A request is refused by the page, or sent. -/
theorem rpc_cases (s : State) (awaits : Await) (body : Body) (bytes : Nat) (control : Bool) :
    (s.phase ≠ .ready ∧ s.rpc limits awaits body bytes control = s.reject awaits .closed) ∨ s.phase = .ready ∧
      (((control = false ∧ limits.maxPending ≤ s.pending.length) ∨ limits.maxPendingBytes < s.pendingBytes + bytes) ∧
          s.rpc limits awaits body bytes control = s.reject awaits .queueLimit ∨
        (control = false → s.pending.length < limits.maxPending) ∧ s.pendingBytes + bytes ≤ limits.maxPendingBytes ∧
          s.rpc limits awaits body bytes control = s.post limits awaits body bytes) := by
  unfold rpc
  by_cases ready : s.phase = .ready
  · refine .inr ⟨ready,?_⟩
    rw [if_neg (by simp [ready])]
    by_cases full : (control = false ∧ limits.maxPending ≤ s.pending.length) ∨
      limits.maxPendingBytes < s.pendingBytes + bytes
    · exact .inl ⟨full,by rw [if_pos full]⟩
    · refine .inr ⟨fun data => ?_,?_,by rw [if_neg full]; rfl⟩
      · exact not_le.mp (fun many => full (.inl ⟨data,many⟩))
      · exact not_lt.mp (fun many => full (.inr many))
  · exact .inl ⟨ready,by rw [if_pos ready]⟩

theorem view_post (s : State) (awaits : Await) (body : Body) (bytes handle : Nat) :
    (s.post limits awaits body bytes).view handle = if awaits.handle = handle
      then { s.view handle with asked := (s.view handle).asked ++ [s.message awaits body] } else s.view handle := by
  by_cases own : awaits.handle = handle
  · simp [view,post,message,List.filter_append,own,session]
  · simp [view,post,message,List.filter_append,own,session]
theorem Books.post (books : Books limits s) {awaits : Await} {body : Body} {bytes : Nat}
    (proper : Proper limits s.records (s.message awaits body)) (room : s.pendingBytes + bytes ≤ limits.maxPendingBytes)
    (few : awaits.kind ≠ .free → s.pending.length < limits.maxPending)
    (sized : awaits.kind = .call → awaits.handle ∈ s.handles) : Books limits (s.post limits awaits body bytes) := by
  have between : (s.post limits awaits body bytes).between = s.between ++ [s.message awaits body] := by
    simp [State.between,State.post]
  refine { books with
    proper := ?_, aligned := ?_, ids := ?_, latest := ?_, bytes := ?_, room := room, few := ?_, sized := ?_ }
  · rw [between]
    intro message member
    rcases List.mem_append.mp member with old | last
    · exact books.proper message old
    · rw [List.mem_singleton.mp last]
      exact proper
  · rw [between]
    exact List.rel_append books.aligned (.cons ⟨rfl,rfl⟩ .nil)
  · simp only [State.post,List.map_append,List.map_cons,List.map_nil]
    refine List.pairwise_append.mpr ⟨books.ids,List.pairwise_singleton _ _,?_⟩
    intro id old new last
    obtain ⟨entry,member,rfl⟩ := List.mem_map.mp old
    rw [List.mem_singleton.mp last]
    exact Nat.lt_succ_of_le (books.latest entry member)
  · intro entry member
    rcases List.mem_append.mp member with old | last
    · exact (books.latest entry old).trans (Nat.le_succ _)
    · rw [List.mem_singleton.mp last]
      exact le_rfl
  · simp [State.post,books.bytes]
  · simp only [State.post,List.filter_append,List.length_append]
    by_cases kind : awaits.kind = .free
    · simpa [kind] using books.few
    · have many := few kind
      have less := List.length_filter_le (fun entry : Entry => decide (entry.awaits.kind ≠ .free)) s.pending
      rw [List.filter_cons_of_pos (by simpa using kind)]
      simp only [List.filter_nil,List.length_cons,List.length_nil]
      omega
  · intro entry member call
    rcases List.mem_append.mp member with old | last
    · exact books.sized entry old call
    · rw [List.mem_singleton.mp last] at call ⊢
      exact if_pos (sized call)

theorem Working.other (working : Working limits s) (calls : Nat) (issued : List Promise)
    (outcomes : List (Promise × Outcome)) (aborted : List Nat) :
    Working limits { s with calls, issued, outcomes, aborted } :=
  ⟨{ working.books with },working.rights⟩
theorem Working.settle (working : Working limits s) (promise : Promise) (outcome : Outcome) :
    Working limits (s.settle promise outcome) := working.other s.calls s.issued _ s.aborted

/-! ### A request is refused -/

theorem view_waits (s : State) (entry : Await × Outcome) (handle : Nat) :
    ({ s with waiting := s.waiting ++ [entry] } : State).view handle = if entry.1.handle = handle
      then { s.view handle with resumed := (s.view handle).resumed ++ [entry] } else s.view handle := by
  by_cases own : entry.1.handle = handle
  · simp [view,List.filter_append,own,session]
  · simp [view,List.filter_append,own,session]
theorem Working.waits {s : State} (working : Working limits s) {entry : Await × Outcome}
    (right : Right { s.view entry.1.handle with resumed := (s.view entry.1.handle).resumed ++ [entry] }) :
    Working limits { s with waiting := s.waiting ++ [entry] } := by
  refine ⟨{ working.books with },fun handle => ?_⟩
  rw [view_waits]
  split_ifs with own
  · rw [← own]
    exact right
  · exact working.rights handle
theorem Working.post (working : Working limits s) {awaits : Await} {body : Body} {bytes : Nat}
    (books : Books limits (s.post limits awaits body bytes))
    (right : Right { s.view awaits.handle with asked := (s.view awaits.handle).asked ++ [s.message awaits body] }) :
    Working limits (s.post limits awaits body bytes) := by
  refine ⟨books,fun handle => ?_⟩
  rw [view_post]
  split_ifs with own
  · rw [← own]
    exact right
  · exact working.rights handle

/-! ### A handle is freed -/

/-- What is rejected when the handle is closed. -/
def rejected (s : State) (handle : Nat) : List (Await × Outcome) :=
  (s.pending.filter (fun entry => entry.awaits.handle = handle ∧ entry.settled = false)).map
    (fun entry => (entry.awaits,.error .aborted))
theorem view_close (s : State) (handle other : Nat) : (s.closeHandle handle).view other = if other = handle
    then { s.view other with
      record := (s.records other).map (fun record => { record with closed := true, released := true })
      resumed := (s.view other).resumed ++ s.rejected handle }
    else s.view other := by
  have own : (s.rejected handle).filter (fun entry => entry.1.handle = handle) = s.rejected handle := by
    refine List.filter_eq_self.mpr (fun entry member => ?_)
    obtain ⟨pending,kept,rfl⟩ := List.mem_map.mp member
    simpa using (of_decide_eq_true (List.mem_filter.mp kept).2).1
  have others : other ≠ handle → (s.rejected handle).filter (fun entry => entry.1.handle = other) = [] := by
    intro differs
    refine List.filter_eq_nil_iff.mpr (fun entry member => ?_)
    obtain ⟨pending,kept,rfl⟩ := List.mem_map.mp member
    have here : pending.awaits.handle = handle := (of_decide_eq_true (List.mem_filter.mp kept).2).1
    simpa [here] using Ne.symm differs
  have waiting : (s.closeHandle handle).waiting = s.waiting ++ s.rejected handle := rfl
  by_cases same : other = handle
  · subst same
    rw [if_pos rfl]
    simp only [view,waiting,List.filter_append,own]
    simp [closeHandle,editRecord,session]
  · rw [if_neg same]
    simp only [view,waiting,List.filter_append,others same,List.append_nil]
    simp [closeHandle,editRecord,session,same]
theorem Books.edit (books : Books limits s) {records : Nat → Option Record}
    (same : ∀ handle, (records handle).map Record.config = (s.records handle).map Record.config) :
    Books limits { s with records } := by
  have known : ∀ handle, (records handle).isSome = (s.records handle).isSome := by
    intro handle
    have filled := congrArg Option.isSome (same handle)
    rwa [Option.isSome_map,Option.isSome_map] at filled
  have sizes : ({ s with records } : State).sizeOf = s.sizeOf := by
    funext handle
    have size := congrArg (Option.map Config.size) (same handle)
    simp only [Option.map_map] at size
    exact congrArg (fun o => Option.getD o 0) size
  refine { books with known := ?_, proper := ?_, listed := ?_, active := ?_, sized := ?_ }
  · intro handle
    dsimp only
    rw [known]
    exact books.known handle
  · intro message member
    have kept := books.proper message member
    refine ⟨kept.handle,kept.kind,kept.new,fun arguments call => ?_⟩
    obtain ⟨record,found,read⟩ := kept.call arguments call
    have config := same message.handle
    rw [found] at config
    obtain ⟨record',found',config'⟩ := Option.map_eq_some_iff.mp config
    exact ⟨record',found',by rw [config']; exact read⟩
  · intro handle member
    dsimp only
    rw [known]
    exact books.listed handle member
  · rw [sizes]
    exact books.active
  · rw [sizes]
    exact books.sized
theorem Books.close (books : Books limits s) (handle : Nat) : Books limits (s.closeHandle handle) := by
  have records : ∀ other, ((s.closeHandle handle).records other).map Record.config =
      (s.records other).map Record.config := by
    intro other
    simp only [closeHandle,editRecord,Function.update_apply]
    split_ifs with same
    · subst same
      cases s.records other <;> rfl
    · rfl
  have edited := books.edit records
  have pending : (s.closeHandle handle).pending =
      s.pending.map (fun entry => if entry.awaits.handle = handle then { entry with settled := true } else entry) := rfl
  have still : ∀ {α : Type} (f : Entry → α), (∀ entry : Entry, f { entry with settled := true } = f entry) →
      (s.closeHandle handle).pending.map f = s.pending.map f := by
    intro α f same
    rw [pending,List.map_map]
    refine List.map_congr_left (fun entry _ => ?_)
    dsimp only [Function.comp]
    split_ifs
    · exact same entry
    · rfl
  have stems : ∀ entry ∈ (s.closeHandle handle).pending, ∃ old ∈ s.pending, entry.id = old.id ∧
      entry.awaits = old.awaits ∧
      entry.size = old.size := by
    intro entry member
    rw [pending] at member
    obtain ⟨old,kept,rfl⟩ := List.mem_map.mp member
    refine ⟨old,kept,?_⟩
    split_ifs <;> exact ⟨rfl,rfl,rfl⟩
  refine { edited with aligned := ?_, ids := ?_, latest := ?_, bytes := ?_, few := ?_, sized := ?_ }
  · rw [pending,List.forall₂_map_left_iff]
    refine books.aligned.imp (fun entry message same => ?_)
    split_ifs <;> exact same
  · rw [still _ (fun _ => rfl)]
    exact books.ids
  · intro entry member
    obtain ⟨old,kept,same,_⟩ := stems entry member
    rw [same]
    exact books.latest old kept
  · rw [still _ (fun _ => rfl)]
    exact books.bytes
  · have same : ((s.closeHandle handle).pending.filter (fun entry => entry.awaits.kind ≠ .free)).length =
        (s.pending.filter (fun entry => entry.awaits.kind ≠ .free)).length := by
      rw [← List.countP_eq_length_filter,← List.countP_eq_length_filter,pending,List.countP_map]
      refine List.countP_congr (fun entry _ => ?_)
      dsimp only [Function.comp]
      split_ifs <;> exact Iff.rfl
    rw [same]
    exact books.few
  · intro entry member call
    obtain ⟨old,kept,_,awaits,size⟩ := stems entry member
    rw [awaits,size]
    rw [awaits] at call
    exact edited.sized old kept call

theorem matched {entries : List Entry} {messages : List Message} (aligned : List.Forall₂ Matches entries messages)
    {entry : Entry} (member : entry ∈ entries) : ∃ message ∈ messages, Matches entry message := by
  induction aligned with
  | nil => cases member
  | cons same _ ih =>
    rcases List.mem_cons.mp member with rfl | later
    · exact ⟨_,List.mem_cons_self,same⟩
    · obtain ⟨message,found,same'⟩ := ih later
      exact ⟨message,List.mem_cons_of_mem _ found,same'⟩
theorem Books.seen (books : Books limits s) {entry : Entry} (member : entry ∈ s.pending) :
    entry.awaits.kind ∈ (s.view entry.awaits.handle).kinds ∨
      ∃ answer ∈ (s.view entry.awaits.handle).answered, answer.message.body.kind = entry.awaits.kind := by
  obtain ⟨message,found,_,awaits⟩ := matched books.aligned member
  have proper := books.proper message found
  have handle : message.handle = entry.awaits.handle := by rw [awaits]; exact proper.handle.symm
  have kind : message.body.kind = entry.awaits.kind := by rw [awaits]; exact proper.kind.symm
  rcases List.mem_append.mp found with answered | asked
  · obtain ⟨answer,old,rfl⟩ := List.mem_map.mp answered
    exact .inr ⟨answer,List.mem_filter.mpr ⟨old,by simpa using handle⟩,kind⟩
  · exact .inl (List.mem_map.mpr ⟨message,List.mem_filter.mpr ⟨asked,by simpa using handle⟩,kind⟩)
theorem rpc_free (books : Books limits s) (ready : s.phase = .ready) (handle : Nat) :
    s.rpc limits (.free handle) .free 0 true = s.post limits (.free handle) .free 0 := by
  rcases rpc_cases limits s (.free handle) .free 0 true with ⟨gone,_⟩ | ⟨_,⟨⟨data,_⟩ | full,_⟩ | ⟨_,_,sent⟩⟩
  · exact absurd ready gone
  · cases data
  · exact absurd books.room (by omega)
  · exact sent
theorem Working.free (working : Working limits s) (ready : s.phase = .ready) {handle : Nat}
    (held : ∀ record, s.records handle = some record → record.released = false → handle ∈ s.handles) :
    Working limits (s.free limits handle) := by
  unfold State.free
  cases found : s.records handle with
  | none => exact working
  | some record =>
    dsimp only
    by_cases released : record.released = true
    · rw [if_pos released]
      exact working
    · rw [if_neg released]
      have kept : (s.view handle).released = false := by
        show ((s.records handle).map Record.released).getD false = false
        rw [found]
        simpa using released
      have right := working.rights handle
      have closed := working.books.close handle
      rw [rpc_free closed ready handle]
      have books : Books limits ((s.closeHandle handle).post limits (.free handle) .free 0) := by
        refine closed.post ⟨rfl,rfl,fun _ new => (nomatch new),fun _ call => (nomatch call)⟩ closed.room
          (fun data => absurd rfl data) (fun call => (nomatch call))
      refine ⟨books,fun other => ?_⟩
      rw [view_post,view_close]
      by_cases own : handle = other
      · subst own
        rw [if_pos (show (Await.free handle).handle = handle from rfl),if_pos rfl]
        have closes := right.closes found kept (held record found (by simpa using released))
          ((s.closeHandle handle).message (.free handle) .free) rfl (s.rejected handle) ?_
        · rw [found]
          exact closes
        · intro entry member
          obtain ⟨pending,kept',rfl⟩ := List.mem_map.mp member
          obtain ⟨pends,here,_⟩ := (List.mem_filter.mp kept').imp_right of_decide_eq_true
          have seen := working.books.seen pends
          rw [here] at seen
          obtain ⟨noneAsked,noneAnswered,_⟩ := right.unfreed kept
          refine ⟨fun free => ?_,fun call => ?_⟩
          · rw [show pending.awaits.kind = .free from free] at seen
            rcases seen with asked | ⟨answer,old,kind⟩
            · exact noneAsked asked
            · exact noneAnswered (List.mem_map.mpr ⟨answer,old,kind⟩)
          · rw [show pending.awaits.kind = .call from call] at seen
            exact right.called (seen.imp_right .inl)
      · rw [if_neg (show (Await.free handle).handle ≠ other from own),if_neg (Ne.symm own)]
        exact working.rights other

/-! ### A handle is let go -/

theorem release_held {handle : Nat} (held : handle ∈ s.handles) : s.release handle =
    { s with handles := s.handles.erase handle, activeBytes := s.activeBytes - s.sizeOf handle } := if_pos held
theorem Books.release (books : Books limits s) (handle : Nat) : Books limits (s.release handle) := by
  by_cases held : handle ∈ s.handles
  · rw [release_held held]
    have sum := List.sum_map_erase s.sizeOf held
    have active := books.active
    have most := books.most
    refine { books with distinct := ?_, listed := ?_, opens := ?_, active := ?_, most := ?_ }
    · exact books.distinct.erase handle
    · exact fun other member => books.listed other (List.mem_of_mem_erase member)
    · exact (List.length_erase_le).trans books.opens
    · show s.activeBytes - s.sizeOf handle = ((s.handles.erase handle).map s.sizeOf).sum
      omega
    · show s.activeBytes - s.sizeOf handle ≤ limits.maxActiveBytes
      omega
  · unfold State.release
    rw [if_neg held]
    exact books
theorem view_release (distinct : s.handles.Nodup) (handle other : Nat) :
    (s.release handle).view other = if other = handle then { s.view other with held := False } else s.view other := by
  unfold State.release
  by_cases held : handle ∈ s.handles
  · rw [if_pos held]
    by_cases own : other = handle
    · subst own
      rw [if_pos rfl]
      have gone : (other ∈ s.handles.erase other) = False := eq_false distinct.not_mem_erase
      simp only [view,gone,session]
    · rw [if_neg own]
      have same : (other ∈ s.handles.erase handle) = (other ∈ s.handles) := propext (List.mem_erase_of_ne own)
      simp only [view,same,session]
  · rw [if_neg held]
    by_cases own : other = handle
    · subst own
      rw [if_pos rfl]
      simp only [view,eq_false held]
    · rw [if_neg own]
theorem Working.release (working : Working limits s) {handle : Nat}
    (right : Right { s.view handle with held := False }) : Working limits (s.release handle) := by
  refine ⟨working.books.release handle,fun other => ?_⟩
  rw [view_release working.books.distinct]
  split_ifs with own
  · subst own
    exact right
  · exact working.rights other

end State
end RelaySwarm.TransferWorker
