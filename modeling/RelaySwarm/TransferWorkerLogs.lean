import RelaySwarm.TransferWorkerPromises

/-!
What went to a transfer worker and what it made of it. The requests it handled are the
first of those that were sent, a frame is what the transfer answers to the calls that were
handled so far, and a caller is told the frame of the request that was its own (`Logged`).
-/
namespace RelaySwarm.TransferWorker

def Body.arguments : Body → Option Arguments
  | .call arguments => some arguments
  | _ => none
/-- The number of the call that awaits it. -/
def Await.number : Await → Option Nat
  | .call n _ => some n
  | _ => none
/-- The calls on a handle, in the order the worker handled them. -/
def given (handle : Nat) (handled : List Answer) : List Arguments :=
  handled.filterMap (fun answer => if answer.message.handle = handle then answer.message.body.arguments else none)

theorem given_snoc (handle : Nat) (handled : List Answer) (answer : Answer) : given handle (handled ++ [answer]) =
    given handle handled ++ (if answer.message.handle = handle then answer.message.body.arguments
      else none).toList := by
  unfold given
  rw [List.filterMap_append]
  cases h : (if answer.message.handle = handle then answer.message.body.arguments else none) <;> simp [h]
theorem given_none {handle : Nat} {handled : List Answer}
    (others : ∀ answer ∈ handled, answer.message.handle ≠ handle) :
    given handle handled = [] :=
  List.filterMap_eq_nil_iff.mpr (fun answer member => if_neg (others answer member))

theorem split_snoc {α : Type} {items before after : List α} {last item : α}
    (split : items ++ [last] = before ++ item :: after) :
    (before = items ∧ item = last) ∨ ∃ after', items = before ++ item :: after' := by
  rcases List.eq_nil_or_concat after with rfl | ⟨after',ending,rfl⟩
  · obtain ⟨same,one⟩ := List.append_inj' split rfl
    cases one
    exact .inl ⟨same.symm,rfl⟩
  · refine .inr ⟨after',?_⟩
    rw [List.concat_eq_append,← List.cons_append,← List.append_assoc] at split
    exact (List.append_inj' split rfl).1

namespace State
variable {limits : Limits} (core : Core)

def configOf (s : State) (handle : Nat) : Option Config := (s.records handle).map Record.config
/-- Nothing is left of the worker: nothing waits, no handle is open, the queues are gone. -/
structure Emptied (pending : List Entry) (handles : List Nat) (pendingBytes activeBytes : Nat) (requests : List Message)
    (answers : List Answer) (live : List Session) : Prop where
  pending : pending = []
  handles : handles = []
  pendingBytes : pendingBytes = 0
  activeBytes : activeBytes = 0
  requests : requests = []
  answers : answers = []
  live : live = []
/-- A frame is what the transfer answers to the calls so far and this one. -/
def Computed (configs : Nat → Option Config) (before : List Answer) (answer : Answer) : Prop :=
  ∀ frame, answer.outcome = .frame frame → ∃ config arguments, configs answer.message.handle = some config ∧
    answer.message.body = .call arguments ∧
    frame = core.answer config (given answer.message.handle before ++ [arguments])
/-- A call fails, or gets the frame that answered its request. -/
def Told (handled : List Answer) (n : Nat) (outcome : Outcome) : Prop :=
  (∃ code, outcome = .error code) ∨ ∃ answer ∈ handled, ∃ frame, answer.message.awaits.number = some n ∧
    answer.outcome = .frame frame ∧ outcome = .frame frame

structure Logged (s : State) : Prop where
  idle : s.phase ≠ .ready →
    Emptied s.pending s.handles s.pendingBytes s.activeBytes s.requests s.answers s.live
  queue : s.phase = .ready → s.sent = s.handled.map (·.message) ++ s.requests
  past : s.handled.map (·.message) <+: s.sent
  ordered : s.sent.Pairwise (fun a b => ∀ n m, a.awaits.number = some n → b.awaits.number = some m → n < m)
  numbered : ∀ message ∈ s.sent, ∀ n, message.awaits.number = some n → n < s.calls
  fresh : s.sent.Pairwise (fun a b => b.body.kind = .new → a.handle ≠ b.handle)
  bounded : ∀ message ∈ s.sent, message.handle ≤ s.nextHandle
  known : ∀ handle, (s.configOf handle).isSome = true → handle ≤ s.nextHandle
  answers : ∀ answer ∈ s.answers, answer ∈ s.handled
  waits : ∀ entry ∈ s.waiting, ∀ n, entry.1.number = some n → Told s.handled n entry.2
  outcomes : ∀ entry ∈ s.outcomes, ∀ n, entry.1 = .call n → Told s.handled n entry.2
  computed : ∀ before answer after, s.handled = before ++ answer :: after → Computed core s.configOf before answer
  sessions : ∀ session ∈ s.live, session.calls = given session.handle s.handled ∧
    s.configOf session.handle = some session.config
  errors : ∀ answer ∈ s.handled, ∀ code, answer.outcome = .error code → code = .invalidTransfer
  granted : ∀ answer ∈ s.handled, answer.outcome = .done → answer.message.body.kind ≠ .call

theorem logged_new : Logged core State.new := by
  constructor <;> simp [State.new,configOf]

/-! ### The page lets every handle go -/

theorem lets_configs (handles : List Nat) (s : State) (handle : Nat) :
    (handles.foldl lets s).configOf handle = s.configOf handle := by
  induction handles generalizing s with
  | nil => rfl
  | cons first rest ih =>
    rw [List.foldl_cons,ih]
    have released : (s.lets first).configOf handle =
        (s.editRecord first (fun record => { record with closed := true })).configOf handle := by
      unfold lets State.release
      split_ifs <;> rfl
    rw [released]
    by_cases own : handle = first
    · subst own
      simp only [configOf,State.editRecord,Function.update_self]
      cases s.records handle <;> rfl
    · simp only [configOf,State.editRecord,Function.update_of_ne own]
theorem sizeOf_configOf {s s' : State} {handle : Nat} (same : s'.configOf handle = s.configOf handle) :
    s'.sizeOf handle = s.sizeOf handle := by
  have sizes : ∀ s : State, s.sizeOf handle = ((s.configOf handle).map Config.size).getD 0 := by
    intro s
    rw [configOf,Option.map_map]
    rfl
  rw [sizes,sizes,same]
theorem lets_all (handles : List Nat) (s : State) (all : s.handles = handles)
    (active : s.activeBytes = (handles.map s.sizeOf).sum) :
    (handles.foldl lets s).handles = [] ∧ (handles.foldl lets s).activeBytes = 0 := by
  induction handles generalizing s with
  | nil => exact ⟨all,active⟩
  | cons handle rest ih =>
    have held : handle ∈ s.handles := by rw [all]; exact List.mem_cons_self
    have sizes : (s.lets handle).sizeOf = s.sizeOf :=
      funext (fun other => sizeOf_configOf (lets_configs [handle] s other))
    have after : s.lets handle = { s.editRecord handle (fun record => { record with closed := true }) with
        handles := s.handles.erase handle
        activeBytes :=
          s.activeBytes - (s.editRecord handle (fun record => { record with closed := true })).sizeOf handle } :=
      release_held held
    have size : (s.editRecord handle (fun record => { record with closed := true })).sizeOf handle =
        s.sizeOf handle := by
      simp only [sizeOf,State.editRecord,Function.update_self]
      cases s.records handle <;> rfl
    rw [List.map_cons,List.sum_cons] at active
    refine ih (s.lets handle) ?_ ?_
    · rw [after]
      show s.handles.erase handle = rest
      rw [all,List.erase_cons_head]
    · rw [sizes,after]
      show s.activeBytes - _ = (rest.map s.sizeOf).sum
      rw [size]
      omega

namespace Logged
variable {core} {s : State}

theorem issues (logged : Logged core s) (issued : List Promise) :
    Logged core { s with calls := s.calls + 1, issued } :=
  { logged with
    numbered := fun message member n number => (logged.numbered message member n number).trans (Nat.lt_succ_self _) }
theorem settle (logged : Logged core s) {promise : Promise} {outcome : Outcome}
    (told : ∀ n, promise = .call n → Told s.handled n outcome) : Logged core (s.settle promise outcome) := by
  refine { logged with outcomes := fun entry member n call => ?_ }
  rcases List.mem_append.mp member with old | last
  · exact logged.outcomes entry old n call
  · rw [List.mem_singleton.mp last] at call ⊢
    exact told n call
theorem fails (logged : Logged core s) (promise : Promise) (code : Code) :
    Logged core (s.settle promise (.error code)) :=
  logged.settle (fun _ _ => .inl ⟨code,rfl⟩)
theorem tells (logged : Logged core s) {awaits : Await} {outcome : Outcome}
    (told : ∀ n, awaits.number = some n → Told s.handled n outcome) :
    Logged core { s with waiting := s.waiting ++ [(awaits,outcome)] } := by
  refine { logged with waits := fun entry member n call => ?_ }
  rcases List.mem_append.mp member with old | last
  · exact logged.waits entry old n call
  · rw [List.mem_singleton.mp last] at call ⊢
    exact told n call
theorem rejects (logged : Logged core s) (awaits : Await) (code : Code) : Logged core (s.reject awaits code) :=
  logged.tells (fun _ _ => .inl ⟨code,rfl⟩)
theorem post (logged : Logged core s) (ready : s.phase = .ready) {awaits : Await} {body : Body} (bytes : Nat)
    (old : awaits.handle ≤ s.nextHandle) (new : body.kind = .new → ∀ message ∈ s.sent, message.handle ≠ awaits.handle)
    (later : ∀ n, awaits.number = some n → n < s.calls ∧
      ∀ message ∈ s.sent, ∀ m, message.awaits.number = some m → m < n) :
    Logged core (s.post limits awaits body bytes) := by
  refine { logged with
    idle := fun gone => absurd ready gone
    queue := fun _ => ?_
    past := logged.past.trans (List.prefix_append _ _)
    ordered := ?_, numbered := ?_, fresh := ?_, bounded := ?_ }
  · show s.sent ++ [s.message awaits body] = s.handled.map (·.message) ++ (s.requests ++ [s.message awaits body])
    rw [logged.queue ready,List.append_assoc]
  · refine List.pairwise_append.mpr ⟨logged.ordered,List.pairwise_singleton _ _,
      fun a sent b last n m first second => ?_⟩
    rw [List.mem_singleton.mp last] at second
    exact (later m second).2 a sent n first
  · intro message member n number
    rcases List.mem_append.mp member with sent | last
    · exact logged.numbered message sent n number
    · rw [List.mem_singleton.mp last] at number
      exact (later n number).1
  · refine List.pairwise_append.mpr ⟨logged.fresh,List.pairwise_singleton _ _,fun a sent b last kind => ?_⟩
    rw [List.mem_singleton.mp last] at kind ⊢
    exact new kind a sent
  · intro message member
    rcases List.mem_append.mp member with sent | last
    · exact logged.bounded message sent
    · rw [List.mem_singleton.mp last]
      exact old
theorem rpc (logged : Logged core s) {awaits : Await} {body : Body} (bytes : Nat) (control : Bool)
    (old : awaits.handle ≤ s.nextHandle) (new : body.kind = .new → ∀ message ∈ s.sent, message.handle ≠ awaits.handle)
    (later : ∀ n, awaits.number = some n → n < s.calls ∧
      ∀ message ∈ s.sent, ∀ m, message.awaits.number = some m → m < n) :
    Logged core (s.rpc limits awaits body bytes control) := by
  rcases rpc_cases limits s awaits body bytes control with ⟨_,refused⟩ | ⟨ready,⟨_,refused⟩ | ⟨_,_,sent⟩⟩
  · rw [refused]
    exact logged.rejects _ _
  · rw [refused]
    exact logged.rejects _ _
  · rw [sent]
    exact logged.post ready bytes old new later
theorem edit (logged : Logged core s) {records : Nat → Option Record}
    (same : ∀ handle, (records handle).map Record.config = s.configOf handle) : Logged core { s with records } := by
  have configs : ({ s with records } : State).configOf = s.configOf := funext same
  refine { logged with known := ?_, computed := ?_, sessions := ?_ }
  · rw [configs]
    exact logged.known
  · rw [configs]
    exact logged.computed
  · rw [configs]
    exact logged.sessions
theorem editRecord (logged : Logged core s) (handle : Nat) (edit : Record → Record)
    (same : ∀ record, (edit record).config = record.config) : Logged core (s.editRecord handle edit) := by
  refine logged.edit (fun other => ?_)
  by_cases own : other = handle
  · subst own
    rw [Function.update_self,Option.map_map,configOf]
    cases s.records other with
    | none => rfl
    | some record => exact congrArg some (same record)
  · rw [Function.update_of_ne own]
    rfl
theorem close (logged : Logged core s) (handle : Nat) : Logged core (s.closeHandle handle) := by
  have edited :=
    logged.editRecord handle (fun record => { record with closed := true, released := true }) (fun _ => rfl)
  refine { edited with idle := fun gone => ?_, waits := fun entry member n call => ?_ }
  · have empty := logged.idle gone
    refine { empty with pending := ?_ }
    show s.pending.map _ = []
    rw [empty.pending]
    rfl
  · rcases List.mem_append.mp (show entry ∈ s.waiting ++ s.rejected handle from member) with old | rejected
    · exact logged.waits entry old n call
    · obtain ⟨pending,_,rfl⟩ := List.mem_map.mp rejected
      exact .inl ⟨.aborted,rfl⟩
theorem free (logged : Logged core s) (handle : Nat) : Logged core (s.free limits handle) := by
  unfold State.free
  cases found : s.records handle with
  | none => exact logged
  | some record =>
    dsimp only
    by_cases released : record.released = true
    · rw [if_pos released]
      exact logged
    · rw [if_neg released]
      refine (logged.close handle).rpc 0 true ?_ (fun kind => (nomatch kind)) (fun _ number => (nomatch number))
      exact logged.known handle (by rw [configOf,found]; rfl)
theorem release (logged : Logged core s) (handle : Nat) : Logged core (s.release handle) := by
  by_cases held : handle ∈ s.handles
  · rw [release_held held]
    refine { logged with idle := fun gone => ?_ }
    rw [(logged.idle gone).handles] at held
    cases held
  · rw [State.release,if_neg held]
    exact logged
theorem opens (logged : Logged core s) (ready : s.phase = .ready) (config : Config) (signal : Option Nat) :
    Logged core (s.opens config signal) ∧ ∀ message ∈ s.sent, message.handle ≠ s.nextHandle + 1 := by
  have other : ∀ handle, handle ≤ s.nextHandle → (s.opens config signal).configOf handle = s.configOf handle := by
    intro handle old
    have differs : handle ≠ s.nextHandle + 1 := by omega
    simp [configOf,State.opens,differs]
  have others : ∀ {handle config'}, s.configOf handle = some config' →
      (s.opens config signal).configOf handle = some config' :=
    fun found => (other _ (logged.known _ (by rw [found]; rfl))).trans found
  refine ⟨{ logged with
    idle := fun gone => absurd ready gone, bounded := ?_, known := ?_, computed := ?_, sessions := ?_ },?_⟩
  · exact fun message member => (logged.bounded message member).trans (Nat.le_succ _)
  · intro handle found
    by_cases old : handle = s.nextHandle + 1
    · exact le_of_eq old
    · have same : (s.opens config signal).configOf handle = s.configOf handle := by simp [configOf,State.opens,old]
      rw [same] at found
      exact (logged.known handle found).trans (Nat.le_succ _)
  · intro before answer after split frame told
    obtain ⟨config',arguments,found,rest⟩ := logged.computed before answer after split frame told
    exact ⟨config',arguments,others found,rest⟩
  · intro session member
    obtain ⟨calls,found⟩ := logged.sessions session member
    exact ⟨calls,others found⟩
  · intro message member same
    have bound := logged.bounded message member
    omega
theorem taken (logged : Logged core s) {waiting : List (Await × Outcome)} (fewer : waiting.Sublist s.waiting) :
    Logged core { s with waiting } :=
  { logged with waits := fun entry member => logged.waits entry (fewer.subset member) }
theorem answered (logged : Logged core s) {answer : Answer} {answers : List Answer}
    (oldest : s.answers = answer :: answers)
    (pending : List Entry) (bytes : Nat) : Logged core (s.answered answers pending bytes) := by
  refine { logged with idle := fun gone => ?_, answers := fun other member => logged.answers other ?_ }
  · have empty := (logged.idle gone).answers
    rw [oldest] at empty
    cases empty
  · rw [oldest]
    exact List.mem_cons_of_mem _ member
theorem retire (logged : Logged core s) (active : s.activeBytes = (s.handles.map s.sizeOf).sum) (code : Code)
    (notify : Bool) :
    Logged core (s.retire code notify) := by
  by_cases ready : s.phase = .ready
  · have frame := lets_frame s.handles (s.emptied code notify)
    have configs := lets_configs s.handles (s.emptied code notify)
    obtain ⟨handles,bytes⟩ := lets_all s.handles (s.emptied code notify) rfl active
    have gone := retire_phase s code notify
    rw [retire_ready ready] at gone ⊢
    generalize s.handles.foldl lets (s.emptied code notify) = after at frame configs handles bytes gone ⊢
    rw [frame] at gone ⊢
    have edited : Logged core ({ s.emptied code notify with
        handles := after.handles, activeBytes := after.activeBytes } : State) := by
      refine { logged with
        idle := fun _ => ⟨rfl,handles,rfl,bytes,rfl,rfl,rfl⟩
        queue := fun ready => absurd ready gone
        answers := fun answer member => (nomatch member)
        waits := fun entry member n call => ?_
        sessions := fun session member => (nomatch member) }
      rcases List.mem_append.mp member with old | rejected
      · exact logged.waits entry old n call
      · obtain ⟨pending,_,rfl⟩ := List.mem_map.mp rejected
        exact .inl ⟨code,rfl⟩
    exact edited.edit (fun handle => configs handle)
  · rw [retire_gone ready]
    exact logged

theorem responded (logged : Logged core s) {message : Message} {outcome : Outcome} {session' : Session}
    (new : message.body.kind = .new → given message.handle s.handled = [])
    (responds : Right.Responds (s.session message.handle) message (some session') outcome) :
    session'.handle = message.handle → session'.calls = given message.handle (s.handled ++ [⟨message,outcome⟩]) := by
  rw [given_snoc,if_pos rfl]
  generalize after : some session' = result at responds
  cases responds with
  | grants gone asked =>
    cases after
    intro _
    rw [new (by rw [asked]; rfl),asked]
    rfl
  | @calls held arguments frame found call =>
    cases after
    intro _
    have calls := (logged.sessions held (session_mem found).1).1
    rw [(session_mem found).2] at calls
    rw [call]
    exact congrArg (fun calls => calls ++ [arguments]) calls
  | refuses => cases after
  | frees => cases after
theorem took (logged : Logged core s) (ready : s.phase = .ready) {message : Message} {rest : List Message}
    (first : s.requests = message :: rest) {outcome : Outcome} {live : List Session} {liveBytes : Nat}
    (responded : Responded core s { s with live, liveBytes } message outcome)
    (after : Working limits (s.took rest ⟨message,outcome⟩ live liveBytes)) :
    Logged core (s.took rest ⟨message,outcome⟩ live liveBytes) := by
  have sent := logged.queue ready
  rw [first] at sent
  -- No call on a handle comes before the request for its transfer.
  have new : message.body.kind = .new → given message.handle s.handled = [] := by
    intro kind
    refine given_none (fun answer member => ?_)
    have fresh := logged.fresh
    rw [sent,List.pairwise_append] at fresh
    exact fresh.2.2 _ (List.mem_map_of_mem member) message List.mem_cons_self kind
  have more : ∀ n outcome', Told s.handled n outcome' → Told (s.handled ++ [⟨message,outcome⟩]) n outcome' := by
    rintro n outcome' (failed | ⟨answer,member,told⟩)
    · exact .inl failed
    · exact .inr ⟨answer,List.mem_append_left _ member,told⟩
  refine { logged with
    idle := fun gone => absurd ready gone, queue := fun _ => ?_, past := ?_, answers := ?_, waits := ?_, outcomes := ?_
    computed := ?_, sessions := ?_, errors := ?_, granted := ?_ }
  · show s.sent = (s.handled ++ [(⟨message,outcome⟩ : Answer)]).map (·.message) ++ rest
    simp [sent]
  · show (s.handled ++ [(⟨message,outcome⟩ : Answer)]).map (·.message) <+: s.sent
    exact ⟨rest,by simp [sent]⟩
  · intro answer member
    rcases List.mem_append.mp member with old | last
    · exact List.mem_append_left _ (logged.answers answer old)
    · exact List.mem_append_right _ last
  · exact fun entry member n call => more n _ (logged.waits entry member n call)
  · exact fun entry member n call => more n _ (logged.outcomes entry member n call)
  · intro before answer after split frame told
    rcases split_snoc split with ⟨rfl,rfl⟩ | ⟨after',same⟩
    · obtain ⟨session,arguments,found,call,answered⟩ := responded.answers frame told
      obtain ⟨calls,config⟩ := logged.sessions session (session_mem found).1
      rw [(session_mem found).2] at calls config
      exact ⟨session.config,arguments,config,call,by rw [answered,calls]⟩
    · exact logged.computed before answer after' same frame told
  · intro session' member
    have lives := find_handle responded.distinct member
    have right := after.rights session'.handle
    refine ⟨?_,?_⟩
    · show session'.calls = given session'.handle (s.handled ++ [⟨message,outcome⟩])
      by_cases own : session'.handle = message.handle
      · have responds := responded.responds
        rw [← own,show ({ s with live, liveBytes } : State).session session'.handle = some session' from lives,own]
          at responds
        rw [own]
        exact logged.responded new responds own
      · have old : s.session session'.handle = some session' := (responded.others session'.handle own).symm.trans lives
        rw [given_snoc,if_neg (Ne.symm own),(logged.sessions session' (session_mem old).1).1]
        simp
    · cases found : s.records session'.handle with
      | none =>
        have gone := (right.known found).2.2.2
        rw [show ((s.took rest ⟨message,outcome⟩ live liveBytes).view session'.handle).session =
          some session' from lives] at gone
        cases gone
      | some record =>
        show (s.records session'.handle).map Record.config = some session'.config
        rw [found,(right.config record found).1 session' lives]
        rfl
  · intro answer member code failed
    rcases List.mem_append.mp member with old | last
    · exact logged.errors answer old code failed
    · rw [List.mem_singleton.mp last] at failed
      exact responded.errors code failed
  · intro answer member done
    rcases List.mem_append.mp member with old | last
    · exact logged.granted answer old done
    · rw [List.mem_singleton.mp last] at done ⊢
      have responds := responded.responds
      rw [show outcome = .done from done] at responds
      generalize ({ s with live, liveBytes } : State).session message.handle = session at responds
      intro call
      cases responds with
      | grants gone new => rw [new] at call; cases call
      | frees free => rw [free] at call; cases call

end Logged
end State
end RelaySwarm.TransferWorker
