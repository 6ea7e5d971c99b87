import RelaySwarm.TransferWorkerQueues

/-!
Every step keeps a transfer worker in order until the page is done with it. An answer is
for the oldest request, which is the first that waits; the worker finds what it is asked
for, and has the room for it.
-/
namespace RelaySwarm.TransferWorker
open JsonText
namespace State
variable {limits : Limits}

/-! ### A transfer is asked for -/

variable {s : State}
theorem Working.unknown (working : Working limits s) {handle : Nat} (fresh : s.nextHandle < handle) :
    s.records handle = none ∧ s.view handle = ⟨none,False,[],[],[],none⟩ := by
  have none : s.records handle = none := by
    have known := (working.books.known handle).not.mpr (by omega)
    simpa using known
  obtain ⟨asked,answered,resumed,session⟩ := (working.rights handle).known none
  refine ⟨none,?_⟩
  have unheld : (handle ∈ s.handles) = False := by
    refine eq_false (fun held => ?_)
    have listed := working.books.listed handle held
    rw [none] at listed
    cases listed
  show (⟨s.records handle,handle ∈ s.handles,(s.view handle).asked,(s.view handle).answered,(s.view handle).resumed,
    (s.view handle).session⟩ : View) = _
  rw [none,unheld,asked,answered,resumed,session]
theorem view_opens (s : State) (config : Config) (signal : Option Nat) (handle : Nat) :
    (s.opens config signal).view handle = if handle = s.nextHandle + 1
      then { s.view handle with record := some ⟨config,signal,false,false,false⟩, held := True }
        else s.view handle := by
  by_cases own : handle = s.nextHandle + 1
  · simp [view,opens,own,session]
  · simp [view,opens,own,session]
theorem Working.opens (working : Working limits s) (config : Config) (signal : Option Nat)
    (few : s.handles.length < limits.maxTransfers) (room : s.activeBytes + config.size ≤ limits.maxActiveBytes) :
    Books limits (s.opens config signal) ∧
      (s.opens config signal).view (s.nextHandle + 1) = ⟨some ⟨config,signal,false,false,false⟩,True,[],[],[],none⟩ ∧
      ∀ handle, handle ≠ s.nextHandle + 1 → (s.opens config signal).view handle = s.view handle := by
  obtain ⟨absent,unknown⟩ := working.unknown (Nat.lt_succ_self s.nextHandle)
  have books := working.books
  have other : ∀ handle, (s.records handle).isSome = true →
      (s.opens config signal).records handle = s.records handle := by
    intro handle known
    have below := ((books.known handle).mp known).2
    exact Function.update_of_ne (by omega) _ _
  have size : ∀ handle, (s.records handle).isSome = true → (s.opens config signal).sizeOf handle = s.sizeOf handle := by
    intro handle known
    unfold sizeOf
    rw [other handle known]
  have own : (s.opens config signal).sizeOf (s.nextHandle + 1) = config.size := by
    simp [sizeOf,State.opens,Record.size]
  have fresh : s.nextHandle + 1 ∉ s.handles := by
    intro held
    have listed := books.listed _ held
    rw [absent] at listed
    cases listed
  refine ⟨{ books with
    known := ?_, proper := ?_, distinct := ?_, listed := ?_, opens := ?_, active := ?_, most :=
      room, sized := ?_ },?_,?_⟩
  · intro handle
    have known := books.known handle
    simp only [State.opens,Function.update_apply]
    by_cases new : handle = s.nextHandle + 1
    · rw [if_pos new]
      exact ⟨fun _ => ⟨by omega,by omega⟩,fun _ => rfl⟩
    · rw [if_neg new,known]
      omega
  · intro message member
    have kept := books.proper message member
    refine ⟨kept.handle,kept.kind,kept.new,fun arguments call => ?_⟩
    obtain ⟨record,found,read⟩ := kept.call arguments call
    exact ⟨record,(other _ (by rw [found]; rfl)).trans found,read⟩
  · exact List.nodup_append.mpr ⟨books.distinct,List.nodup_singleton _,fun a held b last same =>
      fresh (by rw [← List.mem_singleton.mp last,← same]; exact held)⟩
  · intro handle member
    rcases List.mem_append.mp member with old | last
    · rw [other handle (books.listed handle old)]
      exact books.listed handle old
    · rw [List.mem_singleton.mp last]
      simp [State.opens]
  · simp only [State.opens,List.length_append,List.length_cons,List.length_nil]
    omega
  · have olds : s.handles.map (s.opens config signal).sizeOf = s.handles.map s.sizeOf :=
      List.map_congr_left (fun handle held => size handle (books.listed handle held))
    have sum : ((s.opens config signal).handles.map (s.opens config signal).sizeOf) =
        s.handles.map s.sizeOf ++ [config.size] := by
      show (s.handles ++ [s.nextHandle + 1]).map _ = _
      rw [List.map_append,olds,List.map_cons,own,List.map_nil]
    rw [sum,List.sum_append,← books.active]
    rfl
  · intro entry member call
    rw [size]
    · exact books.sized entry member call
    · by_contra none
      have lacking : s.records entry.awaits.handle = Option.none := by simpa using none
      obtain ⟨asked,answered,_⟩ := (working.rights entry.awaits.handle).known lacking
      rcases books.seen member with seen | ⟨answer,seen,_⟩
      · rw [View.kinds,asked] at seen
        cases seen
      · rw [answered] at seen
        cases seen
  · rw [view_opens,if_pos rfl,unknown]
  · intro handle differs
    rw [view_opens,if_neg differs]
theorem Working.asks {s : State} (working : Working limits s) (ready : s.phase = .ready) {config : Config}
    (read : workerConfig (some config.value) limits = some config) (few : s.handles.length < limits.maxTransfers)
    (room : s.activeBytes + config.size ≤ limits.maxActiveBytes) (signal : Option Nat) (n : Nat) :
    Working limits ((s.opens config signal).rpc limits (.new n (s.nextHandle + 1)) (.new config) 0 false) := by
  obtain ⟨books,own,others⟩ := working.opens config signal few room
  rcases rpc_cases limits (s.opens config signal) (.new n (s.nextHandle + 1)) (.new config) 0 false with
    ⟨gone,_⟩ | ⟨_,⟨_,refused⟩ | ⟨few',room',sent⟩⟩
  · exact absurd ready gone
  · rw [refused]
    refine ⟨{ books with },fun handle => ?_⟩
    unfold reject
    rw [view_waits]
    split_ifs with new
    · have same : s.nextHandle + 1 = handle := new
      rw [← same,own]
      exact right_refused _ ⟨rfl,rfl,rfl⟩ rfl rfl
    · rw [others handle (Ne.symm new)]
      exact working.rights handle
  · rw [sent]
    refine ⟨books.post ⟨rfl,rfl,?_,fun _ call => (nomatch call)⟩ room' (fun _ => few' rfl) (fun call => (nomatch call)),
      fun handle => ?_⟩
    · intro config' new
      cases new
      exact read
    rw [view_post]
    split_ifs with new
    · have same : s.nextHandle + 1 = handle := new
      rw [← same,own]
      exact right_asked _ ⟨rfl,rfl,rfl⟩ rfl
    · rw [others handle (Ne.symm new)]
      exact working.rights handle
theorem Working.transfer (working : Working limits s) (ready : s.phase = .ready) (value : Option Value)
    (signal : Option Nat) : Working limits (s.transfer limits value signal) := by
  have called := working.other (s.calls + 1) (s.issued ++ [Promise.transfer s.calls]) s.outcomes s.aborted
  unfold State.transfer
  dsimp only
  rw [if_neg (by simp [ready])]
  by_cases aborted : ∃ g ∈ signal, g ∈ s.aborted
  · rw [if_pos aborted]
    exact called.settle _ _
  rw [if_neg aborted]
  cases read : workerConfig value limits with
  | none => exact called.settle _ _
  | some config =>
    dsimp only
    by_cases full : limits.maxTransfers ≤ s.handles.length ∨ limits.maxActiveBytes < s.activeBytes + config.size
    · rw [if_pos full]
      exact called.settle _ _
    · rw [if_neg full]
      push Not at full
      exact called.asks ready (workerConfig_value read) full.1 full.2 signal s.calls

/-! ### A call is made -/

theorem Working.held (working : Working limits s) {handle : Nat} {record : Record}
    (found : s.records handle = some record) (opened : record.opened = true) (kept : record.released = false) :
    handle ∈ s.handles := by
  have right := working.rights handle
  have opened' : (s.view handle).opened = true := by
    show ((s.records handle).map Record.opened).getD false = true
    rw [found]
    exact opened
  have kept' : (s.view handle).released = false := by
    show ((s.records handle).map Record.released).getD false = false
    rw [found]
    exact kept
  exact (right.has opened' kept').2
theorem Working.frees (working : Working limits s) (ready : s.phase = .ready) {handle : Nat}
    (opened : ∀ record, s.records handle = some record →
      record.opened = true) : Working limits (s.free limits handle) :=
  working.free ready (fun record found kept => working.held found (opened record found) kept)
theorem Working.call (working : Working limits s) (ready : s.phase = .ready) {handle : Nat} {record : Record}
    (found : s.records handle = some record) (opened : record.opened = true) (op : Op) (raw : Raw) :
    Working limits (s.call limits handle record op raw) := by
  have called := working.other (s.calls + 1) (s.issued ++ [Promise.call s.calls]) s.outcomes s.aborted
  have frees := called.frees ready (fun other (same : s.records handle = some other) => by
    cases found.symm.trans same
    exact opened)
  unfold State.call
  dsimp only
  split_ifs with closed
  · exact called.settle _ _
  cases read : workerArguments op raw limits.maxSegmentBytes record.config.peerOnly with
  | none => exact frees.settle _ _
  | some arguments =>
    dsimp only
    split_ifs with full
    · exact frees.settle _ _
    have right := called.rights handle
    have opened' : (s.view handle).opened = true := by
      show ((s.records handle).map Record.opened).getD false = true
      rw [found]
      exact opened
    have kept : record.released = false := by
      rw [← (working.rights handle).closed record found]
      simpa using closed
    have kept' : (s.view handle).released = false := by
      show ((s.records handle).map Record.released).getD false = false
      rw [found]
      exact kept
    rcases rpc_cases limits ({ s with calls := s.calls + 1, issued := s.issued ++ [Promise.call s.calls] } : State)
      (.call s.calls handle) (.call arguments) (carried arguments) false
        with ⟨gone,_⟩ | ⟨_,⟨_,refused⟩ | ⟨few,room,sent⟩⟩
    · exact absurd ready gone
    · rw [refused]
      exact called.waits (right.rejects opened' rfl)
    · rw [sent]
      refine called.post (called.books.post ⟨rfl,rfl,fun _ new => (nomatch new),?_⟩ room (fun _ => few rfl)
        (fun _ => working.held found opened kept)) (right.calls opened' kept' rfl)
      intro arguments' call
      cases call
      exact ⟨record,found,workerArguments_raw read⟩

/-! ### The worker takes a request -/

theorem session_mem {handle : Nat} {session : Session} (found : s.session handle = some session) :
    session ∈ s.live ∧ session.handle = handle :=
  ⟨List.mem_of_find?_eq_some found,by simpa using List.find?_some found⟩
theorem session_none {handle : Nat} : s.session handle = none ↔ ∀ session ∈ s.live, session.handle ≠ handle := by
  simp [session,List.find?_eq_none]
theorem find_handle {live : List Session} (distinct : (live.map (·.handle)).Nodup) {session : Session}
    (member : session ∈ live) : live.find? (·.handle = session.handle) = some session := by
  cases found : live.find? (·.handle = session.handle) with
  | none => exact absurd (decide_eq_true rfl) (List.find?_eq_none.mp found session member)
  | some other =>
    have same : other.handle = session.handle := by simpa using List.find?_some found
    rw [List.inj_on_of_nodup_map distinct (List.mem_of_find?_eq_some found) member same]
theorem Working.sessions (working : Working limits s) {session : Session} (member : session ∈ s.live) :
    session.handle ∈ s.handles ∧ session.config.size = s.sizeOf session.handle := by
  have found : s.session session.handle = some session := find_handle working.books.live member
  have right := working.rights session.handle
  have live : (s.view session.handle).session.isSome = true := by
    show (s.session session.handle).isSome = true
    rw [found]
    rfl
  have held : session.handle ∈ s.handles := right.listed (.inl live)
  obtain ⟨record,known⟩ := Option.isSome_iff_exists.mp (working.books.listed _ held)
  refine ⟨held,?_⟩
  rw [(right.config record known).1 session found,sizeOf,known]
  rfl
theorem Working.spare (working : Working limits s) {handle : Nat} (held : handle ∈ s.handles)
    (gone : s.session handle = none) :
    s.live.length < limits.maxTransfers ∧ s.liveBytes + s.sizeOf handle ≤ limits.maxActiveBytes := by
  have books := working.books
  have distinct : (handle :: s.live.map (·.handle)).Nodup := by
    refine List.nodup_cons.mpr ⟨fun member => ?_,books.live⟩
    obtain ⟨session,lives,same⟩ := List.mem_map.mp member
    exact session_none.mp gone session lives same
  have inside : handle :: s.live.map (·.handle) ⊆ s.handles := by
    intro other member
    rcases List.mem_cons.mp member with rfl | lives
    · exact held
    · obtain ⟨session,lives',rfl⟩ := List.mem_map.mp lives
      exact (working.sessions lives').1
  obtain ⟨few,perm,sub⟩ := List.subperm_of_subset distinct inside
  have count := sub.length_le
  have sum := (sub.map s.sizeOf).sum_le_sum (fun _ _ => Nat.zero_le _)
  rw [(perm.map s.sizeOf).sum_eq,← books.active,List.map_cons,List.sum_cons,List.map_map] at sum
  have sizes : s.live.map (s.sizeOf ∘ (·.handle)) = s.live.map (·.config.size) :=
    List.map_congr_left (fun session lives => (working.sessions lives).2.symm)
  rw [sizes,← books.liveBytes] at sum
  rw [perm.length_eq,List.length_cons,List.length_map] at count
  have most := books.most
  have opens := books.opens
  exact ⟨by omega,by omega⟩

section
variable (core : Core)

/-- The worker's answer to a request, and what it has after it. -/
structure Responded (core : Core) (s s' : State) (message : Message) (outcome : Outcome) : Prop where
  frame : s' = { s with live := s'.live, liveBytes := s'.liveBytes }
  responds : Right.Responds (s.session message.handle) message (s'.session message.handle) outcome
  others : ∀ handle, handle ≠ message.handle → s'.session handle = s.session handle
  distinct : (s'.live.map (·.handle)).Nodup
  bytes : s'.liveBytes = (s'.live.map (·.config.size)).sum
  errors : ∀ code, outcome = .error code → code = .invalidTransfer
  answers : ∀ frame, outcome = .frame frame → ∃ session arguments, s.session message.handle = some session ∧
    message.body = .call arguments ∧ frame = core.answer session.config (session.calls ++ [arguments])

theorem filter_handle {live : List Session} (distinct : (live.map (·.handle)).Nodup) {session : Session}
    (member : session ∈ live) : live.filter (·.handle = session.handle) = [session] := by
  induction live with
  | nil => cases member
  | cons first rest ih =>
    rw [List.map_cons,List.nodup_cons] at distinct
    rcases List.mem_cons.mp member with rfl | later
    · rw [List.filter_cons_of_pos (by simp),List.filter_eq_nil_iff.mpr]
      intro other lives same
      exact distinct.1 (List.mem_map.mpr ⟨other,lives,by simpa using same⟩)
    · rw [List.filter_cons_of_neg,ih distinct.2 later]
      intro same
      exact distinct.1 (List.mem_map.mpr ⟨session,later,by simpa using (Eq.symm (by simpa using same))⟩)
theorem Responded.refused {message : Message} (distinct : (s.live.map (·.handle)).Nodup)
    (bytes : s.liveBytes = (s.live.map (·.config.size)).sum) (gone : s.session message.handle = none) {config : Config}
    (new : message.body = .new config) : Responded core s s message (.error .invalidTransfer) := by
  refine ⟨rfl,?_,fun _ _ => rfl,distinct,bytes,fun code same => ?_,fun frame none => (nomatch none)⟩
  · rw [gone]
    exact .refuses _ rfl new
  · cases same
    rfl
theorem respond_requests (s : State) (requests : List Message) (message : Message) :
    ({ s with requests } : State).respond limits core message =
      ({ (s.respond limits core message).1 with requests },(s.respond limits core message).2) := by
  have same : ({ s with requests } : State).session message.handle = s.session message.handle := rfl
  by_cases counted : message.handle < 1
  · simp [respond,counted]
  · cases body : message.body with
    | new config =>
      cases read : workerConfig (some config.value) limits with
      | none => simp [respond,counted,body,read]
      | some config' =>
        by_cases full : (s.session message.handle).isSome = true ∨ limits.maxTransfers ≤ s.live.length ∨
            limits.maxActiveBytes < s.liveBytes + config'.size
        · simp [respond,counted,body,read,same,full]
        · by_cases accepted : core.accepts config' = false
          · simp [respond,counted,body,read,same,full,accepted]
          · simp [respond,counted,body,read,same,full,accepted]
    | free => cases found : s.session message.handle <;> simp [respond,counted,body,same,found]
    | call arguments =>
      cases found : s.session message.handle with
      | none => simp [respond,counted,body,same,found]
      | some session =>
        cases read : workerArguments arguments.op arguments.raw limits.maxSegmentBytes session.config.peerOnly <;>
          simp [respond,counted,body,same,found,read]
section
variable {message : Message} {rest : List Message} (working : Working limits s)
  (first : s.requests = message :: rest)
include working first

/-- The oldest request is for a handle that was given out, and it suits what the worker has of it. -/
theorem Working.faces : ∃ record more, s.records message.handle = some record ∧
      ¬ message.handle < 1 ∧ message ∈ s.between ∧ message ∈ (s.view message.handle).asked ∧
      (s.view message.handle).kinds = message.body.kind :: more ∧
      fits (s.session message.handle).isSome (message.body.kind :: more) := by
  have books := working.books
  have right := working.rights message.handle
  have asked : (s.view message.handle).asked = message :: rest.filter (·.handle = message.handle) := by
    show s.requests.filter _ = _
    rw [first,List.filter_cons_of_pos (by simp)]
  have kinds : (s.view message.handle).kinds = message.body.kind ::
      (rest.filter (·.handle = message.handle)).map (·.body.kind) := by
    rw [View.kinds,asked]
    rfl
  have fit := right.fit
  rw [kinds] at fit
  obtain ⟨record,known⟩ : ∃ record, s.records message.handle = some record := by
    refine Option.ne_none_iff_exists'.mp (fun absent => ?_)
    have none := (right.known absent).1
    rw [asked] at none
    cases none
  have positive := ((books.known message.handle).mp (by rw [known]; rfl)).1
  exact ⟨record,_,known,by omega,List.mem_append_right _ (by rw [first]; exact List.mem_cons_self),
    by rw [asked]; exact List.mem_cons_self,kinds,fit⟩
theorem Working.responds_new {config : Config} (body : message.body = .new config) :
    Responded core s (s.respond limits core message).1 message (s.respond limits core message).2 := by
  obtain ⟨record,more,known,counted,member,asked,kinds,fit⟩ := working.faces first
  unfold respond
  rw [if_neg counted,body]
  dsimp only
  have kind : message.body.kind = .new := by rw [body]; rfl
  rw [kind] at fit
  have gone : s.session message.handle = none := by
    cases found : s.session message.handle with
    | none => rfl
    | some session => rw [found] at fit; cases fit
  have right := working.rights message.handle
  have held : message.handle ∈ s.handles := right.listed (.inr (.inl (by rw [kinds,kind]; exact List.mem_cons_self)))
  have size : config.size = s.sizeOf message.handle := by
    rw [(right.config record known).2 message asked config body,sizeOf,known]
    rfl
  obtain ⟨few,room⟩ := working.spare held gone
  rw [(working.books.proper message member).new config body]
  dsimp only
  rw [if_neg (by simp only [gone]; simp; omega)]
  split_ifs with refused
  · exact .refused core working.books.live working.books.liveBytes gone body
  · have apart := session_none.mp gone
    have own : (s.live ++ [(⟨message.handle,config,[]⟩ : Session)]).find? (·.handle = message.handle) =
        some ⟨message.handle,config,[]⟩ := by
      rw [List.find?_append,show s.live.find? (·.handle = message.handle) = none from gone]
      simp
    refine ⟨rfl,?_,fun handle differs => ?_,?_,?_,fun code same => (by cases same),fun frame same => (by cases same)⟩
    · show Right.Responds (s.session message.handle) message
        ((s.live ++ [(⟨message.handle,config,[]⟩ : Session)]).find? _) .done
      rw [own]
      exact .grants gone body
    · show (s.live ++ [(⟨message.handle,config,[]⟩ : Session)]).find? (·.handle = handle) =
        s.live.find? (·.handle = handle)
      rw [List.find?_append]
      simp [Ne.symm differs]
    · simp only [List.map_append,List.map_cons,List.map_nil]
      refine List.nodup_append.mpr ⟨working.books.live,List.nodup_singleton _,fun a lives b last same => ?_⟩
      obtain ⟨session,member',rfl⟩ := List.mem_map.mp lives
      rw [List.mem_singleton.mp last] at same
      exact apart session member' same
    · simp [working.books.liveBytes]
theorem Working.responds_free (body : message.body = .free) :
    Responded core s (s.respond limits core message).1 message (s.respond limits core message).2 := by
  obtain ⟨record,more,known,counted,_⟩ := working.faces first
  unfold respond
  rw [if_neg counted,body]
  dsimp only
  cases found : s.session message.handle with
  | none =>
    refine ⟨rfl,?_,fun _ _ => rfl,working.books.live,working.books.liveBytes,fun code same => (by cases same),
      fun frame same => (by cases same)⟩
    rw [found]
    exact .frees body
  | some session =>
    obtain ⟨lives,same⟩ := session_mem found
    dsimp only
    refine ⟨rfl,?_,fun handle differs => ?_,?_,?_,fun code same => (by cases same),fun frame same => (by cases same)⟩
    · have gone : (s.live.filter (·.handle ≠ message.handle)).find? (·.handle = message.handle) = none := by
        refine List.find?_eq_none.mpr (fun other member' => ?_)
        simpa using (List.mem_filter.mp member').2
      show Right.Responds (s.session message.handle) message
        ((s.live.filter (·.handle ≠ message.handle)).find? _) .done
      rw [gone]
      exact .frees body
    · show (s.live.filter (·.handle ≠ message.handle)).find? (·.handle = handle) = s.live.find? (·.handle = handle)
      rw [List.find?_filter]
      congr 1
      funext other
      by_cases own : other.handle = handle
      · simp [own,differs]
      · simp [own]
    · exact working.books.live.sublist (List.filter_sublist.map _)
    · have parts :=
        ((List.filter_append_perm (fun other : Session => decide (other.handle = message.handle)) s.live).map
        (fun session => session.config.size)).sum_eq
      have alone := filter_handle working.books.live lives
      rw [same] at alone
      rw [List.map_append,List.sum_append,alone,← working.books.liveBytes] at parts
      have others : s.live.filter (fun other => !decide (other.handle = message.handle)) =
          s.live.filter (·.handle ≠ message.handle) := by simp
      rw [others] at parts
      simp only [List.map_cons,List.map_nil,List.sum_cons,List.sum_nil] at parts
      show s.liveBytes - session.config.size = ((s.live.filter (·.handle ≠ message.handle)).map (·.config.size)).sum
      omega
theorem Working.responds_call {arguments : Arguments} (body : message.body = .call arguments) :
    Responded core s (s.respond limits core message).1 message (s.respond limits core message).2 := by
  obtain ⟨record,more,known,counted,member,asked,kinds,fit⟩ := working.faces first
  unfold respond
  rw [if_neg counted,body]
  dsimp only
  have kind : message.body.kind = .call := by rw [body]; rfl
  rw [kind] at fit
  cases found : s.session message.handle with
  | none => rw [found] at fit; cases fit
  | some session =>
    obtain ⟨lives,same⟩ := session_mem found
    obtain ⟨record',found',read⟩ := (working.books.proper message member).call arguments body
    cases known.symm.trans found'
    rw [← ((working.rights message.handle).config record known).1 session found] at read
    dsimp only
    rw [read]
    dsimp only
    have handles : ∀ other : Session, (if other.handle = message.handle
        then { other with calls := session.calls ++ [arguments] } else other).handle = other.handle := by
      intro other
      split_ifs <;> rfl
    have configs : ∀ other : Session, (if other.handle = message.handle
        then { other with calls := session.calls ++ [arguments] } else other).config = other.config := by
      intro other
      split_ifs <;> rfl
    have finds : ∀ handle, (s.live.map (fun other => if other.handle = message.handle
        then { other with calls := session.calls ++ [arguments] } else other)).find? (·.handle = handle) =
        (s.session handle).map (fun other => if other.handle = message.handle
          then { other with calls := session.calls ++ [arguments] } else other) := by
      intro handle
      rw [List.find?_map]
      simp only [Function.comp_def,handles]
      rfl
    refine ⟨rfl,?_,fun handle differs => ?_,?_,?_,fun code none => (by cases none),fun frame told => ?_⟩
    · show Right.Responds (s.session message.handle) message (List.find? _ _) _
      rw [finds,found,Option.map_some,if_pos same]
      exact .calls _ rfl body
    · show List.find? _ _ = s.session handle
      rw [finds]
      cases other : s.session handle with
      | none => rfl
      | some session' =>
        have own := (session_mem other).2
        rw [Option.map_some,if_neg (by rw [own]; exact differs)]
    · simp only [List.map_map,Function.comp_def,handles]
      exact working.books.live
    · simp only [List.map_map,Function.comp_def,configs]
      exact working.books.liveBytes
    · cases told
      exact ⟨session,arguments,found,body,rfl⟩
theorem Working.responds :
    Responded core s (s.respond limits core message).1 message (s.respond limits core message).2 := by
  cases body : message.body with
  | new config => exact working.responds_new core first body
  | free => exact working.responds_free core first body
  | call arguments => exact working.responds_call core first body

end

/-- The oldest request is answered. -/
def took (s : State) (rest : List Message) (answer : Answer) (live : List Session) (liveBytes : Nat) : State :=
  { s with requests := rest, live, liveBytes, answers := s.answers ++ [answer], handled := s.handled ++ [answer] }
theorem receive_took (working : Working limits s) {message : Message} {rest : List Message}
    (first : s.requests = message :: rest) : ∃ outcome live liveBytes,
      s.receive limits core = s.took rest ⟨message,outcome⟩ live liveBytes ∧
        Responded core s { s with live, liveBytes } message outcome := by
  have responded := working.responds core first
  refine ⟨(s.respond limits core message).2,(s.respond limits core message).1.live,
    (s.respond limits core message).1.liveBytes,?_,?_⟩
  · unfold State.receive
    rw [first]
    dsimp only
    rw [respond_requests core s rest,responded.frame]
    rfl
  · rw [← responded.frame]
    exact responded
theorem Working.receive (working : Working limits s) : Working limits (s.receive limits core) := by
  cases first : s.requests with
  | nil =>
    unfold State.receive
    rw [first]
    exact working
  | cons message rest =>
    obtain ⟨outcome,live,liveBytes,after,responded⟩ := receive_took core working first
    have books := working.books
    have between : (s.took rest ⟨message,outcome⟩ live liveBytes).between = s.between := by
      simp [State.between,took,first]
    rw [after]
    refine ⟨{ books with proper := ?_, aligned := ?_, live := responded.distinct, liveBytes := responded.bytes },
      fun handle => ?_⟩
    · rw [between]
      exact books.proper
    · rw [between]
      exact books.aligned
    · have right := working.rights handle
      by_cases own : message.handle = handle
      · subst own
        have asked : (s.view message.handle).asked = message :: rest.filter (·.handle = message.handle) := by
          show s.requests.filter _ = _
          rw [first,List.filter_cons_of_pos (by simp)]
        have received := right.receives asked responded.responds
        simpa [view,took,List.filter_append,session] using received
      · have asked : s.requests.filter (·.handle = handle) = rest.filter (·.handle = handle) := by
          rw [first,List.filter_cons_of_neg (by simpa using own)]
        have same : live.find? (·.handle = handle) = s.live.find? (·.handle = handle) :=
          responded.others handle (Ne.symm own)
        have still : (s.took rest ⟨message,outcome⟩ live liveBytes).view handle = s.view handle := by
          simp [view,took,List.filter_append,session,asked,same,own]
        rw [still]
        exact right
end

end State
end RelaySwarm.TransferWorker
