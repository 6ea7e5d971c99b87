import RelaySwarm.LinkAnswers
import RelaySwarm.LinkBounds

/-!
The loop of `tick` fires the earliest due timer as long as there is one (`Ticks`). A
request that is not drained yet may be, and its timer starts anew; any other timer
closes the link, which leaves none. So the loop ends after two firings at most, and
what it leaves is the link of `Link.tick` (`ticks_end`).
-/
namespace RelaySwarm.Links
open Script Pieces

variable {now : Nat} {timer : Nat × Nat}
def Link.uploadDeadline (link : Link) : Option Nat :=
  match link.active with
  | some ⟨_,.draining _ _ deadline _⟩ => some deadline
  | _ => .none
/-- The earliest time a tick has work to do. -/
def Link.nextDeadline (link : Link) : Option Nat :=
  ((link.pending.map (·.deadline)).toList ++ link.uploadDeadline.toList).min?
/-- One timer, by its deadline and its number, is not after another. -/
def NotAfter (a b : Nat × Nat) : Prop := a.1 < b.1 ∨ a.1 = b.1 ∧ a.2 ≤ b.2
instance (a b : Nat × Nat) : Decidable (NotAfter a b) := inferInstanceAs (Decidable (_ ∨ _))
/-- The earliest timer that is due, as its deadline and its number. -/
def Link.due (link : Link) (now : Nat) : Option (Nat × Nat) :=
  match link.requestDue now,link.uploadDue now with
  | some request,some upload => if NotAfter request upload then some request else some upload
  | some request,.none => some request
  | .none,upload => upload
/-- The loop: the timers that fired with the link each of them left, and the last link. -/
inductive Ticks (now : Nat) : Link → List ((Nat × Nat) × Link) → Link → Prop
  | ends {link : Link} (settled : link.due now = none) : Ticks now link [] link
  | fires {link last : Link} {timer : Nat × Nat} {later : List ((Nat × Nat) × Link)} (due : link.due now = some timer)
      (rest : Ticks now (link.fire now) later last) : Ticks now link ((timer,link.fire now) :: later) last

theorem Ticks.unique {link last last' : Link} {fired fired' : List ((Nat × Nat) × Link)}
    (ticks : Ticks now link fired last) (other : Ticks now link fired' last') : fired' = fired ∧ last' = last := by
  induction ticks generalizing fired' last' with
  | ends settled =>
    cases other with
    | ends => exact ⟨rfl,rfl⟩
    | fires due _ => exact absurd (settled.symm.trans due) (by simp)
  | fires due _ ih =>
    cases other with
    | ends settled => exact absurd (settled.symm.trans due) (by simp)
    | fires due' rest =>
      obtain ⟨same,same'⟩ := ih rest
      cases due.symm.trans due'
      exact ⟨by rw [same],same'⟩

theorem Ticks.settled {link last : Link} {fired : List ((Nat × Nat) × Link)} (ticks : Ticks now link fired last) :
    last.due now = none := by
  induction ticks with
  | ends settled => exact settled
  | fires _ _ ih => exact ih

section
variable (link : Link)

/-! ### The clock -/

@[simp] theorem sendText_clock (message : Message) : (link.sendText message).clock = link.clock := by
  unfold Link.sendText
  split <;> rfl
@[simp] theorem finish_clock (bytes : Option (List UInt8)) (outcome : Option Outcome) (reportNow : Bool) :
    (link.finish bytes outcome reportNow).clock = link.clock := by
  unfold Link.finish
  split <;> rfl
theorem startNextFrom_clock (queue : List Upload) : ∀ link : Link, (startNextFrom queue link).clock = link.clock := by
  induction queue with
  | nil => exact fun link => rfl
  | cons upload rest ih =>
    intro link
    unfold startNextFrom
    split
    · rfl
    · split
      · exact (ih _).trans (sendText_clock _ _)
      · split
        · exact ih _
        · rfl
@[simp] theorem finishUpload_clock : link.finishUpload.clock = link.clock := startNextFrom_clock _ _
@[simp] theorem stopUpload_clock : link.stopUpload.clock = link.clock := by
  unfold Link.stopUpload
  split
  · exact finishUpload_clock _
  · rfl
@[simp] theorem close_clock (reason : CloseReason) : (link.close reason).clock = link.clock := by
  unfold Link.close
  split
  · rfl
  · rw [stopUpload_clock]
    exact finish_clock _ _ _ _
@[simp] theorem giveUp_clock (reason : CloseReason) (pending : Pending) (outcome : Outcome) :
    (link.giveUp reason pending outcome).clock = link.clock := by
  have closed : ((link.finish .none (some outcome) false).close reason).clock = link.clock := by simp
  unfold Link.giveUp
  dsimp only
  split <;> exact closed
@[simp] theorem abandon_clock (now : Nat) (reason : CloseReason) (abandoned : Bool) :
    (link.abandon now reason abandoned).clock = link.clock := by
  unfold Link.abandon
  split
  · split
    · exact close_clock _ _
    · rfl
  · split
    · exact giveUp_clock _ _ _ _
    · exact sendText_clock _ _
theorem requestTimer_clock (now : Nat) : (link.requestTimer now).clock = now := by
  unfold Link.requestTimer
  split
  · split
    · exact close_clock _ _
    · exact abandon_clock _ _ _ _
  · rfl
theorem uploadTimer_clock (now : Nat) : (link.uploadTimer now).clock = now := by
  unfold Link.uploadTimer
  rw [finishUpload_clock,close_clock]
  rfl

/-! ### One firing -/

variable {link}

/-- The timer that fires is the one of the request, which is not after the other one, or
    the one of the response. -/
theorem due_cases (due : link.due now = some timer) :
    (link.requestDue now = some timer ∧ link.fire now = link.requestTimer timer.1 ∧
      ∀ other, link.uploadDue now = some other → NotAfter timer other) ∨
    (link.uploadDue now = some timer ∧ link.fire now = link.uploadTimer timer.1) := by
  unfold Link.due at due
  unfold Link.fire
  cases request : link.requestDue now with
  | none =>
    rw [request] at due
    have upload : link.uploadDue now = some timer := due
    rw [upload]
    exact .inr ⟨rfl,rfl⟩
  | some request' =>
    rw [request] at due
    cases waits : link.uploadDue now with
    | none =>
      rw [waits] at due
      cases due
      exact .inl ⟨rfl,rfl,fun _ held => (nomatch held)⟩
    | some upload' =>
      rw [waits] at due
      dsimp only at due ⊢
      by_cases first : NotAfter request' upload'
      · rw [if_pos first] at due
        cases due
        refine .inl ⟨rfl,if_pos first,fun other held => ?_⟩
        cases held
        exact first
      · rw [if_neg first] at due
        cases due
        exact .inr ⟨rfl,if_neg first⟩
theorem fire_clock (due : link.due now = some timer) : (link.fire now).clock = timer.1 := by
  rcases due_cases due with ⟨_,request,_⟩ | ⟨_,upload⟩
  · rw [request]
    exact requestTimer_clock link timer.1
  · rw [upload]
    exact uploadTimer_clock link timer.1
theorem due_none (idle : link.due now = none) : link.requestDue now = none ∧ link.uploadDue now = none := by
  unfold Link.due at idle
  cases request : link.requestDue now with
  | none =>
    rw [request] at idle
    exact ⟨rfl,idle⟩
  | some request' =>
    rw [request] at idle
    cases waits : link.uploadDue now with
    | none =>
      rw [waits] at idle
      cases idle
    | some upload' =>
      rw [waits] at idle
      dsimp only at idle
      split at idle <;> cases idle
theorem fire_idle (idle : link.due now = none) : link.fire now = link := by
  unfold Link.fire
  rw [(due_none idle).1,(due_none idle).2]

/-- What holds in every run of the requests and the responses of a link. -/
structure Kept (config : LinkConfig) (link : Link) (accepted : List Upload) : Prop where
  sound : Sound link.requester
  counted : Counted (link.server accepted)
  calm : Calm (link.server accepted)
  bounded : link.memory.Bounded config (fun _ _ => True)

variable {config : LinkConfig} {accepted : List Upload}

theorem fire_kept (kept : Kept config link accepted) (now : Nat) : Kept config (link.fire now) accepted := by
  have serves := fire_serves link now kept.counted kept.calm
  exact ⟨(fire_moves kept.sound now).sound kept.sound,serves.counted kept.counted,serves.calm,
    fire_bounded kept.bounded now⟩
theorem closed_due (kept : Kept config link accepted) (closed : link.closed = true) (now : Nat) :
    link.due now = none := by
  have request : link.requestDue now = none := by
    have idle : link.pending = none := kept.sound.shut closed
    unfold Link.requestDue
    rw [idle]
  have upload : link.uploadDue now = none := by
    unfold Link.uploadDue
    split
    · rename_i waits
      have stopped := kept.calm.stopped closed _ (congrArg (Option.map Active.serving) waits)
      cases stopped
    · rfl
  unfold Link.due
  rw [request,upload]
theorem giveUp_closed (link : Link) (reason : CloseReason) (pending : Pending) (outcome : Outcome) :
    (link.giveUp reason pending outcome).closed = true := by
  unfold Link.giveUp
  dsimp only
  split
  · exact close_closed _ _
  · exact close_closed _ _
/-- A timer that fires closes the link, or it is the one of a request which is drained
    from now on. -/
theorem fire_course (due : link.due now = some timer) :
    (link.fire now).closed = true ∨
      ∃ pending, link.pending = some pending ∧ pending.draining = false ∧ timer = (pending.deadline,pending.timer) ∧
        (∀ other, link.uploadDue now = some other → NotAfter timer other) ∧
        link.fire now = (link.atTime timer.1).drain timer.1 .requestTimeout pending .timeout := by
  rcases due_cases due with ⟨request,fired,first⟩ | ⟨_,fired⟩
  · rw [fired]
    unfold Link.requestDue at request
    unfold Link.requestTimer
    cases held : link.pending with
    | none =>
      rw [held] at request
      cases request
    | some pending =>
      rw [held] at request
      dsimp only at request ⊢
      by_cases draining : pending.draining = true
      · rw [if_pos draining]
        exact .inl (close_closed _ _)
      · rw [if_neg draining]
        unfold Link.abandon
        have held' : (link.atTime timer.1).pending = some pending := held
        rw [held']
        dsimp only
        split
        · exact .inl (giveUp_closed _ _ _ _)
        · refine .inr ⟨pending,rfl,Bool.eq_false_iff.mpr draining,?_,first,rfl⟩
          split at request
          · exact (Option.some.inj request).symm
          · cases request
  · refine .inl ?_
    rw [fired]
    exact (finishUpload_still _).closed (close_closed _ _)

/-! ### The loop -/

theorem uploadDue_drain (now : Nat) (reason : CloseReason) (pending : Pending) (outcome : Outcome) (moment : Nat) :
    (link.drain now reason pending outcome).uploadDue moment = link.uploadDue moment := by
  have same : (link.drain now reason pending outcome).active = link.active := sendText_active _ _
  unfold Link.uploadDue
  rw [same]
theorem drain_pending (now : Nat) (reason : CloseReason) (pending : Pending) (outcome : Outcome) :
    (link.drain now reason pending outcome).pending =
      some (pending.drain reason (now + link.config.drainTimeoutMs) (link.timers + 1) (!link.silent)) := by
  unfold Link.drain Link.sendText
  dsimp only
  split <;> rfl
/-- The firings are in order, and the clock stands at the deadline of each. -/
structure InOrder (fired : List ((Nat × Nat) × Link)) : Prop where
  sorted : fired.Pairwise (fun a b => NotAfter a.1 b.1)
  clock : ∀ timer ∈ fired, timer.2.clock = timer.1.1

theorem ticks_end (kept : Kept config link accepted) (now : Nat) :
    ∃ fired, Ticks now link fired (link.tick now) ∧ fired.length ≤ 2 ∧ InOrder fired := by
  unfold Link.tick
  cases due : link.due now with
  | none =>
    rw [fire_idle due,fire_idle due]
    exact ⟨[],.ends due,Nat.zero_le _,.nil,fun _ member => (nomatch member)⟩
  | some timer =>
    have clock := fire_clock due
    have kept' := fire_kept kept now
    cases due' : (link.fire now).due now with
    | none =>
      rw [fire_idle due']
      refine ⟨[(timer,link.fire now)],.fires due (.ends due'),Nat.le_succ _,List.pairwise_singleton _ _,
        fun other member => ?_⟩
      rw [List.mem_singleton.mp member]
      exact clock
    | some timer' =>
      have clock' := fire_clock due'
      rcases fire_course due with closed | ⟨pending,held,_,rfl,first,drained⟩
      · rw [closed_due kept' closed] at due'
        cases due'
      · have pending' : (link.fire now).pending =
            some (pending.drain .requestTimeout (pending.deadline + link.config.drainTimeoutMs)
            (link.timers + 1) (!link.silent)) := by
          rw [drained]
          exact drain_pending _ _ _ _
        -- the request was drained by the first firing, so the second one closes
        have closed : ((link.fire now).fire now).closed = true := by
          rcases fire_course due' with closed | ⟨other,held',live,_⟩
          · exact closed
          · rw [pending'] at held'
            cases held'
            cases live
        have settled := closed_due (fire_kept kept' now) closed now
        have later : NotAfter (pending.deadline,pending.timer) timer' := by
          rcases due_cases due' with ⟨request,_⟩ | ⟨upload,_⟩
          · unfold Link.requestDue at request
            rw [pending'] at request
            dsimp only at request
            split at request
            · cases request
              have made := (kept.bounded.pending pending held).timer
              have made : pending.timer ≤ link.timers := made
              show pending.deadline < pending.deadline + link.config.drainTimeoutMs ∨
                pending.deadline = pending.deadline + link.config.drainTimeoutMs ∧ pending.timer ≤ link.timers + 1
              omega
            · cases request
          · rw [drained,uploadDue_drain] at upload
            exact first timer' upload
        refine ⟨[((pending.deadline,pending.timer),link.fire now),(timer',(link.fire now).fire now)],
          .fires due (.fires due' (.ends settled)),le_rfl,?_,?_⟩
        · rw [List.pairwise_pair]
          exact later
        · intro other member
          rcases List.mem_cons.mp member with rfl | member
          · exact clock
          · rw [List.mem_singleton.mp member]
            exact clock'
theorem due_nextDeadline (idle : link.due now = none) :
    ∀ deadline, link.nextDeadline = some deadline → now < deadline := by
  intro deadline next
  have member : deadline ∈ (link.pending.map (·.deadline)).toList ++ link.uploadDeadline.toList := List.min?_mem next
  have requests := due_none idle
  rcases List.mem_append.mp member with request | upload
  · obtain ⟨pending,held,rfl⟩ := Option.map_eq_some_iff.mp (Option.mem_toList.mp request)
    have absent := requests.1
    unfold Link.requestDue at absent
    rw [held] at absent
    dsimp only at absent
    split at absent
    · cases absent
    · rename_i later
      exact Nat.lt_of_not_le later
  · have deadline := Option.mem_toList.mp upload
    have absent := requests.2
    unfold Link.uploadDeadline at deadline
    unfold Link.uploadDue at absent
    split at deadline
    · rename_i waits
      cases deadline
      rw [waits] at absent
      dsimp only at absent
      split at absent
      · cases absent
      · rename_i later
        exact Nat.lt_of_not_le later
    · cases deadline

end

/-- The timers of a link, in every run: each way to take the loop ends as a tick does,
    after which no timer is due. -/
theorem ticks_terminate (parse : String → Option Json) (config : LinkConfig) (opened : Nat) (inputs : List Input)
    (now : Nat) :
    let link := (Link.new config opened).run parse inputs
    (∃ fired, Ticks now link fired (link.tick now)) ∧
    (∀ fired last, Ticks now link fired last → last = link.tick now ∧ fired.length ≤ 2 ∧ InOrder fired) ∧
    (∀ deadline, (link.tick now).nextDeadline = some deadline → now < deadline) := by
  intro link
  have accounted := run_accounted parse inputs _ _ (new_accounted config opened)
  have kept : Kept config link _ := ⟨(run_books parse config opened inputs).sound,accounted.counted,accounted.calm,
    run_bounded parse inputs _ (new_bounded config opened)⟩
  obtain ⟨fired,ticks,few,order⟩ := ticks_end kept now
  refine ⟨⟨fired,ticks⟩,fun fired' last other => ?_,due_nextDeadline ticks.settled⟩
  obtain ⟨rfl,rfl⟩ := ticks.unique other
  exact ⟨rfl,few,order⟩

end RelaySwarm.Links
