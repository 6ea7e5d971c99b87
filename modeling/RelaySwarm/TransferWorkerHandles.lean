import RelaySwarm.TransferWorker

/-!
A handle of a transfer worker, seen from both ends: its record on the page, its session
at the worker, and what is between them for it (`View`). What holds of every handle while
the worker is in use (`Right`) is kept by whatever happens to it; it says that a handle is
not let go while the worker has it, or is still to be asked for it.
-/
namespace RelaySwarm.TransferWorker

inductive Kind where
  | new
  | call
  | free
deriving DecidableEq
def Body.kind : Body → Kind
  | .new _ => .new
  | .call _ => .call
  | .free => .free
def Await.kind : Await → Kind
  | .new _ _ => .new
  | .call _ _ => .call
  | .free _ => .free
def Outcome.fails : Outcome → Bool
  | .error _ => true
  | _ => false

/-- The requests on their way for a handle fit what the worker has: a transfer is asked
    for once, then only freed; what the worker has is called, then freed. -/
def fits : Bool → List Kind → Prop
  | _,[] => True
  | false,.new :: rest => rest = [] ∨ rest = [.free]
  | true,.call :: rest => fits true rest
  | _,.free :: rest => rest = []
  | _,_ => False

theorem fits_call {kinds : List Kind} (fit : fits true kinds) (unfreed : .free ∉ kinds) :
    fits true (kinds ++ [.call]) := by
  induction kinds with
  | nil => trivial
  | cons kind rest ih =>
    cases kind with
    | new => cases fit
    | call => exact ih fit (fun freed => unfreed (List.mem_cons_of_mem _ freed))
    | free => exact absurd List.mem_cons_self unfreed
theorem fits_free {live : Bool} {kinds : List Kind} (fit : fits live kinds) (unfreed : .free ∉ kinds) :
    fits live (kinds ++ [.free]) := by
  induction kinds with
  | nil => cases live <;> rfl
  | cons kind rest ih =>
    cases live with
    | false =>
      cases kind with
      | new =>
        rcases fit with rfl | rfl
        · exact .inr rfl
        · simp at unfreed
      | call => cases fit
      | free => exact absurd List.mem_cons_self unfreed
    | true =>
      cases kind with
      | new => cases fit
      | call => exact ih fit (fun freed => unfreed (List.mem_cons_of_mem _ freed))
      | free => exact absurd List.mem_cons_self unfreed

/-- A handle from both ends. -/
structure View where
  record : Option Record
  /-- The page has not let it go. -/
  held : Prop
  asked : List Message
  answered : List Answer
  resumed : List (Await × Outcome)
  session : Option Session

namespace View
def kinds (v : View) : List Kind := v.asked.map (·.body.kind)
def released (v : View) : Bool := (v.record.map Record.released).getD false
def opened (v : View) : Bool := (v.record.map Record.opened).getD false
/-- Requests to free the handle, answered ones and those whose answer waits. -/
def frees (v : View) : Nat :=
  v.kinds.count .free + (v.answered.map (·.message.body.kind)).count .free + (v.resumed.map (·.1.kind)).count .free
/-- The transfer was asked for, and this was answered with success or not. -/
def asksNew (v : View) (fails : Bool) : Prop :=
  (∃ answer ∈ v.answered, answer.message.body.kind = .new ∧ answer.outcome.fails = fails) ∨
    ∃ entry ∈ v.resumed, entry.1.kind = .new ∧ entry.2.fails = fails
/-- A call was made and its caller has not been told. -/
def calling (v : View) : Prop := .call ∈ v.kinds ∨ (∃ answer ∈ v.answered, answer.message.body.kind = .call) ∨
  ∃ entry ∈ v.resumed, entry.1.kind = .call
end View

/-- What holds of a handle while the worker is in use. -/
structure Right (v : View) : Prop where
  fit : fits v.session.isSome v.kinds
  frees : v.frees ≤ v.released.toNat
  freed : .free ∈ v.answered.map (·.message.body.kind) ∨ .free ∈ v.resumed.map (·.1.kind) → v.session = none ∧
    v.asked = []
  refused : v.asksNew true → v.released = false → v.session = none ∧ .new ∉ v.kinds
  granted : v.asksNew false ∨ v.opened = true → v.released = false → v.session.isSome = true
  called : v.calling → v.opened = true
  listed : v.session.isSome = true ∨ .new ∈ v.kinds ∨ .free ∈ v.kinds ∨
    .free ∈ v.answered.map (·.message.body.kind) → v.held
  closed : ∀ record, v.record = some record → record.closed = record.released
  known : v.record = none → v.asked = [] ∧ v.answered = [] ∧ v.resumed = [] ∧ v.session = none
  config : ∀ record, v.record = some record → (∀ session, v.session = some session → session.config = record.config) ∧
    ∀ message ∈ v.asked, ∀ config, message.body = .new config → config = record.config

namespace Right
variable {v : View}

theorem unfreed (right : Right v) (kept : v.released = false) : .free ∉ v.kinds ∧
    .free ∉ v.answered.map (·.message.body.kind) ∧ .free ∉ v.resumed.map (·.1.kind) := by
  have none := right.frees
  rw [kept] at none
  unfold View.frees at none
  simp only [Bool.toNat_false,Nat.le_zero,Nat.add_eq_zero_iff] at none
  exact ⟨List.count_eq_zero.mp none.1.1,List.count_eq_zero.mp none.1.2,List.count_eq_zero.mp none.2⟩
theorem has (right : Right v) (opened : v.opened = true) (kept : v.released = false) :
    v.session.isSome = true ∧ v.held :=
  ⟨right.granted (.inr opened) kept,right.listed (.inl (right.granted (.inr opened) kept))⟩

theorem calls (right : Right v) (opened : v.opened = true) (kept : v.released = false) {message : Message}
    (kind : message.body.kind = .call) : Right { v with asked := v.asked ++ [message] } := by
  obtain ⟨noneAsked,noneAnswered,noneResumed⟩ := right.unfreed kept
  have live := (right.has opened kept).1
  have kinds : ({ v with asked := v.asked ++ [message] } : View).kinds = v.kinds ++ [.call] := by
    simp [View.kinds,kind]
  refine ⟨?_,?_,?_,?_,right.granted,fun _ => opened,?_,right.closed,?_,?_⟩
  · show fits v.session.isSome _
    rw [kinds,live]
    have fit := right.fit
    rw [live] at fit
    exact fits_call fit noneAsked
  · have frees := right.frees
    unfold View.frees at frees ⊢
    rw [kinds,List.count_append]
    exact frees
  · rintro (freed | freed)
    · exact absurd freed noneAnswered
    · exact absurd freed noneResumed
  · intro failed _
    have none := (right.refused failed kept).1
    rw [none] at live
    cases live
  · intro _
    exact (right.has opened kept).2
  · intro absent
    have absent' : v.record = none := absent
    rw [View.opened,absent'] at opened
    cases opened
  · intro record found
    refine ⟨(right.config record found).1,fun other member config new => ?_⟩
    rcases List.mem_append.mp member with old | last
    · exact (right.config record found).2 other old config new
    · rw [List.mem_singleton.mp last] at new
      rw [new] at kind
      cases kind
theorem fewer (right : Right v) {answered : List Answer} {resumed : List (Await × Outcome)}
    (answers : answered.Sublist v.answered)
    (waiting : resumed.Sublist v.resumed) : Right { v with answered, resumed } := by
  have answers' := answers.map (·.message.body.kind)
  have waiting' := waiting.map (·.1.kind)
  have less : ∀ fails, ({ v with answered, resumed } : View).asksNew fails → v.asksNew fails := by
    rintro fails (⟨answer,member,which⟩ | ⟨entry,member,which⟩)
    · exact .inl ⟨answer,answers.subset member,which⟩
    · exact .inr ⟨entry,waiting.subset member,which⟩
  refine ⟨right.fit,?_,?_,?_,?_,?_,?_,right.closed,?_,right.config⟩
  · have frees := right.frees
    have first := answers'.count_le .free
    have second := waiting'.count_le .free
    unfold View.frees View.kinds at frees ⊢
    dsimp only [View.released] at frees ⊢
    omega
  · rintro (freed | freed)
    · exact right.freed (.inl (answers'.subset freed))
    · exact right.freed (.inr (waiting'.subset freed))
  · exact fun failed => right.refused (less true failed)
  · exact fun granted => right.granted (granted.imp_left (less false))
  · rintro (asked | ⟨answer,member,call⟩ | ⟨entry,member,call⟩)
    · exact right.called (.inl asked)
    · exact right.called (.inr (.inl ⟨answer,answers.subset member,call⟩))
    · exact right.called (.inr (.inr ⟨entry,waiting.subset member,call⟩))
  · rintro (live | new | free | answer)
    · exact right.listed (.inl live)
    · exact right.listed (.inr (.inl new))
    · exact right.listed (.inr (.inr (.inl free)))
    · exact right.listed (.inr (.inr (.inr (answers'.subset answer))))
  · intro none
    obtain ⟨asked,empty,idle,gone⟩ := right.known none
    rw [empty] at answers
    rw [idle] at waiting
    exact ⟨asked,List.sublist_nil.mp answers,List.sublist_nil.mp waiting,gone⟩

theorem closes (right : Right v) {record : Record} (found : v.record = some record) (kept : v.released = false)
    (held : v.held) (message : Message) (kind : message.body.kind = .free) (rejected : List (Await × Outcome))
    (failed : ∀ entry ∈ rejected, entry.1.kind ≠ .free ∧ (entry.1.kind = .call → v.opened = true)) :
    Right { v with
      record := some { record with closed := true, released := true }
      asked := v.asked ++ [message]
      resumed := v.resumed ++ rejected } := by
  obtain ⟨noneAsked,noneAnswered,noneResumed⟩ := right.unfreed kept
  have opened : v.opened = record.opened := by rw [View.opened,found]; rfl
  have noneRejected : .free ∉ rejected.map (·.1.kind) := by
    intro member
    obtain ⟨entry,entered,which⟩ := List.mem_map.mp member
    exact (failed entry entered).1 which
  constructor
  · show fits v.session.isSome ((v.asked ++ [message]).map (·.body.kind))
    rw [List.map_append,List.map_cons,kind]
    exact fits_free right.fit noneAsked
  · unfold View.frees View.kinds
    simp only [List.map_append,List.count_append,List.map_cons,List.map_nil,kind,List.count_eq_zero.mpr noneAnswered,
      List.count_eq_zero.mpr noneResumed,List.count_eq_zero.mpr noneRejected]
    rw [show (v.asked.map (·.body.kind)).count .free = 0 from List.count_eq_zero.mpr noneAsked]
    exact le_rfl
  · rintro (freed | freed)
    · exact absurd freed noneAnswered
    · rw [List.map_append,List.mem_append] at freed
      exact (freed.elim noneResumed noneRejected).elim
  · exact fun _ kept' => (nomatch kept')
  · exact fun _ kept' => (nomatch kept')
  · show _ → record.opened = true
    rw [← opened]
    rintro (asked | answered | ⟨entry,member,call⟩)
    · simp only [View.kinds,List.map_append,List.mem_append,List.map_cons,List.map_nil,kind,List.mem_singleton,
        reduceCtorEq,or_false] at asked
      exact right.called (.inl asked)
    · exact right.called (.inr (.inl answered))
    · rcases List.mem_append.mp member with old | new
      · exact right.called (.inr (.inr ⟨entry,old,call⟩))
      · exact (failed entry new).2 call
  · exact fun _ => held
  · rintro other same
    cases same
    rfl
  · exact fun absent => (nomatch absent)
  · rintro other same
    cases same
    refine ⟨(right.config record found).1,fun other member config new => ?_⟩
    rcases List.mem_append.mp member with old | last
    · exact (right.config record found).2 other old config new
    · rw [List.mem_singleton.mp last] at new
      rw [new] at kind
      cases kind
theorem rejects (right : Right v) (opened : v.opened = true) {entry : Await × Outcome} (kind : entry.1.kind = .call) :
    Right { v with resumed := v.resumed ++ [entry] } := by
  have still : ∀ fails, ({ v with resumed := v.resumed ++ [entry] } : View).asksNew fails → v.asksNew fails := by
    rintro fails (answered | ⟨other,member,new,which⟩)
    · exact .inl answered
    · rcases List.mem_append.mp member with old | last
      · exact .inr ⟨other,old,new,which⟩
      · rw [List.mem_singleton.mp last,kind] at new
        cases new
  have kinds : (v.resumed ++ [entry]).map (·.1.kind) = v.resumed.map (·.1.kind) ++ [.call] := by simp [kind]
  refine ⟨right.fit,?_,?_,fun failed => right.refused (still true failed),
    fun granted => right.granted (granted.imp_left (still false)),fun _ =>
      opened,right.listed,right.closed,?_,right.config⟩
  · have frees := right.frees
    unfold View.frees at frees ⊢
    rw [kinds,List.count_append]
    exact frees
  · rintro (freed | freed)
    · exact right.freed (.inl freed)
    · rw [kinds,List.mem_append] at freed
      exact right.freed (.inr (freed.resolve_right (by simp)))
  · intro absent
    have absent' : v.record = none := absent
    rw [View.opened,absent'] at opened
    cases opened
theorem answers (right : Right v) {answer : Answer} {rest : List Answer} (first : v.answered = answer :: rest)
    {entry : Await × Outcome} (kind : entry.1.kind = answer.message.body.kind)
    (same : entry.1.kind = .new → entry.2.fails = answer.outcome.fails) :
    Right { v with answered := rest, resumed := v.resumed ++ [entry] } := by
  have member : answer ∈ v.answered := by rw [first]; exact List.mem_cons_self
  have less : rest ⊆ v.answered := by rw [first]; exact List.subset_cons_self _ _
  have still : ∀ fails, ({ v with answered := rest, resumed := v.resumed ++ [entry] } : View).asksNew fails →
      v.asksNew fails := by
    rintro fails (⟨other,old,which⟩ | ⟨other,waits,new,which⟩)
    · exact .inl ⟨other,less old,which⟩
    · rcases List.mem_append.mp waits with old | last
      · exact .inr ⟨other,old,new,which⟩
      · rw [List.mem_singleton.mp last] at new which
        exact .inl ⟨answer,member,by rw [← kind]; exact new,by rw [← same new]; exact which⟩
  refine ⟨right.fit,?_,?_,fun failed => right.refused (still true failed),
    fun granted => right.granted (granted.imp_left (still false)),?_,?_,right.closed,?_,right.config⟩
  · have frees := right.frees
    unfold View.frees View.kinds at frees ⊢
    simp only [first,List.map_append,List.count_append,List.map_cons,List.map_nil,List.count_cons,List.count_nil,kind]
      at frees ⊢
    dsimp only [View.released] at frees ⊢
    omega
  · rintro (freed | freed)
    · exact right.freed (.inl (List.map_subset _ less freed))
    · rw [List.map_append,List.mem_append] at freed
      rcases freed with old | last
      · exact right.freed (.inr old)
      · rw [List.map_cons,List.map_nil,List.mem_singleton,kind] at last
        exact right.freed (.inl (by rw [last]; exact List.mem_map_of_mem member))
  · rintro (asked | ⟨other,old,call⟩ | ⟨other,waits,call⟩)
    · exact right.called (.inl asked)
    · exact right.called (.inr (.inl ⟨other,less old,call⟩))
    · rcases List.mem_append.mp waits with old | last
      · exact right.called (.inr (.inr ⟨other,old,call⟩))
      · rw [List.mem_singleton.mp last,kind] at call
        exact right.called (.inr (.inl ⟨answer,member,call⟩))
  · rintro (live | new | free | old)
    · exact right.listed (.inl live)
    · exact right.listed (.inr (.inl new))
    · exact right.listed (.inr (.inr (.inl free)))
    · exact right.listed (.inr (.inr (.inr (List.map_subset _ less old))))
  · intro absent
    have empty := (right.known absent).2.1
    rw [first] at empty
    cases empty
theorem opens (right : Right v) {record : Record} (found : v.record = some record) (granted : v.asksNew false)
    {resumed : List (Await × Outcome)} (waiting : resumed.Sublist v.resumed) :
    Right { v with record := some { record with opened := true }, resumed } := by
  have released : v.released = record.released := by rw [View.released,found]; rfl
  have fewer := right.fewer (List.Sublist.refl v.answered) waiting
  refine ⟨fewer.fit,?_,fewer.freed,?_,?_,fun _ => rfl,fewer.listed,?_,fun absent => (nomatch absent),?_⟩
  · have frees := fewer.frees
    dsimp only [View.released,View.frees,View.kinds] at frees ⊢
    rw [found] at frees
    exact frees
  · exact fun failed kept => fewer.refused failed (released.trans kept)
  · exact fun _ kept => right.granted (.inl granted) (released.trans kept)
  · rintro other same
    cases same
    exact right.closed record found
  · rintro other same
    cases same
    exact right.config record found
theorem releases (right : Right v) (gone : v.session = none) (asked : .new ∉ v.kinds ∧ .free ∉ v.kinds)
    (answered : .free ∉ v.answered.map (·.message.body.kind)) : Right { v with held := False } := by
  refine { right with listed := ?_ }
  rintro (live | new | free | answer)
  · have live' : v.session.isSome = true := live
    rw [gone] at live'
    cases live'
  · exact asked.1 new
  · exact asked.2 free
  · exact answered answer

/-- What the worker makes of a request for a handle. -/
inductive Responds (session : Option Session) (message : Message) : Option Session → Outcome → Prop
  | grants {config : Config} (gone : session = none) (new : message.body = .new config) :
      Responds session message (some ⟨message.handle,config,[]⟩) .done
  | refuses {config : Config} (code : Code) (gone : session = none) (new : message.body = .new config) :
      Responds session message none (.error code)
  | calls {held : Session} {arguments : Arguments} (frame : TransferFrame.Reply) (filled : session = some held)
      (call : message.body = .call arguments) :
      Responds session message (some { held with calls := held.calls ++ [arguments] }) (.frame frame)
  | frees (free : message.body = .free) : Responds session message none .done
theorem receives (right : Right v) {message : Message} {rest : List Message} (first : v.asked = message :: rest)
    {session : Option Session} {outcome : Outcome} (responds : Responds v.session message session outcome) :
    Right { v with asked := rest, answered := v.answered ++ [⟨message,outcome⟩], session } := by
  have kinds : v.kinds = message.body.kind :: rest.map (·.body.kind) := by rw [View.kinds,first]; rfl
  have less : rest ⊆ v.asked := by rw [first]; exact List.subset_cons_self _ _
  have less' : rest.map (·.body.kind) ⊆ v.kinds := List.map_subset _ less
  have fit := right.fit
  rw [kinds] at fit
  have known : ∀ {P : Prop}, v.record = none → P := by
    intro P absent
    have empty := (right.known absent).1
    rw [first] at empty
    cases empty
  have frees : ({ v with asked := rest, answered := v.answered ++ [⟨message,outcome⟩], session } : View).frees ≤
      v.released.toNat := by
    have before := right.frees
    unfold View.frees View.kinds at before ⊢
    simp only [first,List.map_append,List.count_append,List.map_cons,List.map_nil,List.count_cons,List.count_nil]
      at before ⊢
    omega
  have called : ({ v with asked := rest, answered := v.answered ++ [⟨message,outcome⟩], session } : View).calling →
      v.opened = true := by
    rintro (asked | ⟨other,member,call⟩ | resumed)
    · exact right.called (.inl (less' asked))
    · rcases List.mem_append.mp member with old | last
      · exact right.called (.inr (.inl ⟨other,old,call⟩))
      · rw [List.mem_singleton.mp last] at call
        exact right.called (.inl (by rw [kinds,← call]; exact List.mem_cons_self))
    · exact right.called (.inr (.inr resumed))
  -- Nothing is asked of the worker once the handle's freeing is answered.
  have unfreed : .free ∉ v.answered.map (·.message.body.kind) ∧ .free ∉ v.resumed.map (·.1.kind) := by
    constructor
    all_goals
      intro freed
      have idle := (right.freed (by simp [freed])).2
      rw [first] at idle
      cases idle
  have freed : message.body.kind ≠ .free → ¬ (Kind.free ∈ (v.answered ++ [(⟨message,outcome⟩ : Answer)]).map
      (fun answer => answer.message.body.kind) ∨ Kind.free ∈ v.resumed.map (·.1.kind)) := by
    rintro other (answered | resumed)
    · simp only [List.map_append,List.mem_append,List.map_cons,List.map_nil,List.mem_singleton] at answered
      exact answered.elim unfreed.1 (fun same => other same.symm)
    · exact unfreed.2 resumed
  have asks : ∀ {fails},
      ({ v with asked := rest, answered := v.answered ++ [⟨message,outcome⟩], session } : View).asksNew fails →
      v.asksNew fails ∨ message.body.kind = .new ∧ outcome.fails = fails := by
    rintro fails (⟨other,member,new,which⟩ | resumed)
    · rcases List.mem_append.mp member with old | last
      · exact .inl (.inl ⟨other,old,new,which⟩)
      · rw [List.mem_singleton.mp last] at new which
        exact .inr ⟨new,which⟩
    · exact .inl (.inr resumed)
  have config : ∀ record, v.record = some record → ∀ other ∈ rest, ∀ config, other.body = .new config →
      config = record.config :=
    fun record found other member => (right.config record found).2 other (less member)
  cases responds with
  | @grants config' gone new =>
    have kind : message.body.kind = .new := by rw [new]; rfl
    rw [gone,kind] at fit
    have held : v.held := right.listed (.inr (.inl (by rw [kinds,kind]; exact List.mem_cons_self)))
    refine ⟨?_,frees,fun answered => absurd answered (freed (by simp [kind])),fun failed kept => ?_,
      fun _ _ => rfl,called,fun _ => held,right.closed,known,fun record found => ⟨?_,config record found⟩⟩
    · rcases fit with alone | free
      · rw [View.kinds,alone]
        trivial
      · rw [View.kinds,free]
        rfl
    · rcases asks failed with old | ⟨_,done⟩
      · exact absurd (by rw [kinds,kind]; exact List.mem_cons_self) (right.refused old kept).2
      · cases done
    · intro _ same
      cases same
      exact (right.config record found).2 message (by rw [first]; exact List.mem_cons_self) config' new
  | refuses code gone new =>
    have kind : message.body.kind = .new := by rw [new]; rfl
    rw [gone,kind] at fit
    have held : v.held := right.listed (.inr (.inl (by rw [kinds,kind]; exact List.mem_cons_self)))
    refine ⟨?_,frees,fun answered => absurd answered (freed (by simp [kind])),fun _ _ => ⟨rfl,?_⟩,
      fun granted kept => ?_,
      called,fun _ => held,right.closed,known,fun record found => ⟨fun _ none => (nomatch none),config record found⟩⟩
    · rcases fit with alone | free
      · rw [View.kinds,alone]
        trivial
      · rw [View.kinds,free]
        rfl
    · rcases fit with alone | free
      · rw [View.kinds,alone]
        simp
      · rw [View.kinds,free]
        simp
    · have live : v.session.isSome = true := by
        refine right.granted ?_ kept
        rcases granted with new' | opened
        · rcases asks new' with old | ⟨_,done⟩
          · exact .inl old
          · cases done
        · exact .inr opened
      rw [gone] at live
      cases live
  | @calls session' _ _ filled call =>
    have kind : message.body.kind = .call := by rw [call]; rfl
    rw [filled,kind] at fit
    have live : v.session.isSome = true := by rw [filled]; rfl
    refine ⟨fit,frees,fun answered => absurd answered (freed (by simp [kind])),fun failed kept => ?_,
      fun _ _ => rfl,called,
      fun _ => right.listed (.inl live),right.closed,known,fun record found => ⟨?_,config record found⟩⟩
    · rcases asks failed with old | ⟨new,_⟩
      · rw [(right.refused old kept).1] at live
        cases live
      · rw [kind] at new
        cases new
    · intro _ same
      cases same
      exact (right.config record found).1 session' filled
  | frees free =>
    have kind : message.body.kind = .free := by rw [free]; rfl
    rw [kind] at fit
    have member : .free ∈ v.kinds := by rw [kinds,kind]; exact List.mem_cons_self
    have alone : rest = [] := by
      have none : rest.map (·.body.kind) = [] := by
        cases live : v.session.isSome <;> rw [live] at fit <;> exact fit
      exact List.map_eq_nil_iff.mp none
    have released : v.released ≠ false := fun kept => (right.unfreed kept).1 member
    refine ⟨?_,frees,fun _ => ⟨rfl,alone⟩,fun _ kept => absurd kept released,fun _ kept => absurd kept released,called,
      fun _ => right.listed (.inr (.inr (.inl member))),right.closed,known,
      fun record found => ⟨fun _ none => (nomatch none),config record found⟩⟩
    rw [View.kinds,alone]
    trivial

end Right

theorem right_asked (record : Record) (fresh : record.closed = false ∧ record.released = false ∧ record.opened = false)
    {message : Message} (new : message.body = .new record.config) : Right ⟨some record,True,[message],[],[],none⟩ := by
  obtain ⟨closed,released,opened⟩ := fresh
  have kind : message.body.kind = .new := by rw [new]; rfl
  have kinds : (⟨some record,True,[message],[],[],none⟩ : View).kinds = [.new] := by simp [View.kinds,kind]
  constructor
  · rw [kinds]
    exact .inl rfl
  · unfold View.frees
    rw [kinds]
    simp
  · simp
  · rintro (⟨_,member,_⟩ | ⟨_,member,_⟩) _ <;> cases member
  · rintro ((⟨_,member,_⟩ | ⟨_,member,_⟩) | opened') _
    · cases member
    · cases member
    · exact absurd (opened.symm.trans opened') (by simp)
  · rintro (asked | ⟨_,member,_⟩ | ⟨_,member,_⟩)
    · rw [kinds] at asked
      simp at asked
    · cases member
    · cases member
  · exact fun _ => trivial
  · intro _ same
    cases same
    rw [closed,released]
  · exact fun absent => (nomatch absent)
  · intro _ same
    cases same
    refine ⟨fun _ none => (nomatch none),fun other member config new' => ?_⟩
    rw [List.mem_singleton.mp member,new] at new'
    cases new'
    rfl
theorem right_refused (record : Record)
    (fresh : record.closed = false ∧ record.released = false ∧ record.opened = false)
    {entry : Await × Outcome} (new : entry.1.kind = .new) (failed : entry.2.fails = true) :
    Right ⟨some record,True,[],[],[entry],none⟩ := by
  obtain ⟨closed,released,opened⟩ := fresh
  constructor
  · trivial
  · simp [View.frees,View.kinds,new]
  · simp [new]
  · exact fun _ _ => ⟨rfl,by simp [View.kinds]⟩
  · rintro ((⟨_,member,_⟩ | ⟨_,member,_,done⟩) | opened') _
    · cases member
    · rw [List.mem_singleton.mp member,failed] at done
      cases done
    · exact absurd (opened.symm.trans opened') (by simp)
  · rintro (asked | ⟨_,member,_⟩ | ⟨_,member,call⟩)
    · simp [View.kinds] at asked
    · cases member
    · rw [List.mem_singleton.mp member,new] at call
      cases call
  · exact fun _ => trivial
  · intro _ same
    cases same
    rw [closed,released]
  · exact fun absent => (nomatch absent)
  · intro _ same
    cases same
    exact ⟨fun _ none => (nomatch none),fun _ member => (nomatch member)⟩
theorem right_unknown : Right ⟨none,False,[],[],[],none⟩ := by
  constructor
  · trivial
  · simp [View.frees,View.kinds]
  · simp
  · rintro (⟨_,member,_⟩ | ⟨_,member,_⟩) _ <;> cases member
  · rintro ((⟨_,member,_⟩ | ⟨_,member,_⟩) | opened) _
    · cases member
    · cases member
    · cases opened
  · rintro (asked | ⟨_,member,_⟩ | ⟨_,member,_⟩)
    · simp [View.kinds] at asked
    · cases member
    · cases member
  · rintro (live | new | free | answered)
    · cases live
    · simp [View.kinds] at new
    · simp [View.kinds] at free
    · simp at answered
  · exact fun _ none => (nomatch none)
  · exact fun _ => ⟨rfl,rfl,rfl,rfl⟩
  · exact fun _ none => (nomatch none)

end RelaySwarm.TransferWorker
