import RelaySwarm.LedgerRuns
import RelaySwarm.LedgerText

/-!
Whether a ledger can outgrow its store. A request that is answered leaves a valid
state, and a valid state fits the store when the widest rows at every capacity do
(`store_never_full`); with the largest capacities a ledger that is only ever asked
what it allows outgrows it (`outgrows`).
-/
namespace RelaySwarm.Ledger
open Effect Script
open JsonText (Value write lit utf8Bytes_length Ascii object_length array_length quote_length Printed)

variable {data working : Data} {s s' : Side} {capacity n : Nat}
section
variable {world : World} {options : Options}

/-! ### Capacities -/

structure Roomy (options : Options) (data : Data) : Prop where
  accounts : data.accounts.length ≤ options.accountCapacity
  identities : data.identities.length ≤ options.identityCapacity
  grants : data.grants.length ≤ options.grantCapacity
  operations : data.operations.length ≤ options.operationCapacity
theorem Roomy.same {data data' : Data} (roomy : Roomy options data)
    (accounts : data'.accounts.length = data.accounts.length)
    (identities : data'.identities.length = data.identities.length) (grants : data'.grants.length = data.grants.length)
    (operations : data'.operations.length = data.operations.length) : Roomy options data' :=
  ⟨by rw [accounts]; exact roomy.accounts,by rw [identities]; exact roomy.identities,by rw [grants]; exact roomy.grants,
    by rw [operations]; exact roomy.operations⟩

theorem replaceHolding_length (id : String) (holding : Holding) (accounts : List Account) :
    (replaceHolding id holding accounts).length = accounts.length := by
  induction accounts with
  | nil => rfl
  | cons account rest ih =>
    unfold replaceHolding
    split
    · rfl
    · simp [ih]
theorem setHolding_roomy (roomy : Roomy options data) (id : String) (holding : Holding) :
    Roomy options (data.setHolding id holding) :=
  roomy.same (replaceHolding_length id holding data.accounts) rfl rfl rfl
theorem setRenewal_length (token : String) (renewal : Renewal) (grants : List Grant) :
    (setRenewal token renewal grants).length = grants.length := by
  induction grants with
  | nil => rfl
  | cons grant rest ih =>
    unfold setRenewal
    split
    · rfl
    · simp [ih]
theorem enrol_roomy {data enrolled : Data} {value : Verified} {record : Identity} (roomy : Roomy options data)
    (done : enrol world options data value s = (.ok (record,enrolled),s')) : Roomy options enrolled := by
  simp only [enrol,identityId,bind_ok,refuseIf_ok,pure_ok] at done
  obtain ⟨_,_,⟨_,_,⟨_,rfl⟩,rfl,rfl⟩,rest⟩ := done
  cases known : data.identities.find? (fun identity => identity.id = world.digest data.secret value) with
  | some found =>
    simp only [known,pure_ok,Prod.mk.injEq] at rest
    obtain ⟨⟨rfl,rfl⟩,rfl⟩ := rest
    exact roomy
  | none =>
    simp only [known,enrolNew,bind_ok,refuseIf_ok,randomId_ok,pure_ok,Prod.mk.injEq,not_or,Nat.not_le] at rest
    obtain ⟨_,_,⟨room,rfl⟩,_,_,⟨rfl,rfl⟩,⟨rfl,rfl⟩,rfl⟩ := rest
    exact ⟨by
      simpa using Nat.succ_le_of_lt room.2,by simpa using Nat.succ_le_of_lt room.1,roomy.grants,roomy.operations⟩
theorem enrolAll_roomy (values : List Verified) : ∀ {data enrolled : Data} {records : List Identity} {s s' : Side},
    Roomy options data → enrolAll world options data values s = (.ok (records,enrolled),s') →
      Roomy options enrolled := by
  induction values with
  | nil =>
    intro data enrolled records s s' roomy done
    simp only [enrolAll,pure_ok,Prod.mk.injEq] at done
    obtain ⟨⟨rfl,rfl⟩,rfl⟩ := done
    exact roomy
  | cons value rest ih =>
    intro data enrolled records s s' roomy done
    simp only [enrolAll,bind_ok,pure_ok,Prod.mk.injEq] at done
    obtain ⟨first,_,one,later,_,others,⟨rfl,rfl⟩,rfl⟩ := done
    exact ih (enrol_roomy roomy one) others
theorem adjustAccount_roomy {records : List Identity} {request : Authorisation}
    {adjusted : (String × Balance) × Data} (roomy : Roomy options data)
    (done : adjustAccount data records request s = (.ok adjusted,s')) : Roomy options adjusted.2 := by
  simp only [adjustAccount,bind_ok,require_ok,pure_ok] at done
  obtain ⟨first,_,⟨_,rfl⟩,account,_,⟨_,rfl⟩,linked,_,linking,rfl,rfl⟩ := done
  have before : Roomy options linked.2 := by
    unfold linkRecords at linking
    cases link : request.link with
    | false =>
      simp only [link,pure_ok] at linking
      obtain ⟨rfl,rfl⟩ := linking
      exact roomy
    | true =>
      cases second : records[1]? with
      | none =>
        simp only [link,second,pure_ok] at linking
        obtain ⟨rfl,rfl⟩ := linking
        exact roomy
      | some record =>
        simp only [link,second,linkAccounts,bind_ok,require_ok] at linking
        obtain ⟨other,_,⟨_,rfl⟩,rest⟩ := linking
        split_ifs at rest with same
        · simp only [pure_ok] at rest
          obtain ⟨rfl,rfl⟩ := rest
          exact setHolding_roomy roomy _ _
        · simp only [bind_ok,refuseIf_ok,pure_ok] at rest
          obtain ⟨_,_,⟨_,rfl⟩,rfl,rfl⟩ := rest
          exact setHolding_roomy (setHolding_roomy roomy _ _) _ _
  unfold applySettings
  split
  · exact before
  · exact setHolding_roomy before _ _
theorem revokeWhere_roomy {data revoked : Data} {account : String} {selected : Grant → Bool}
    (roomy : Roomy options data)
    (done : revokeWhere data account selected s = (.ok revoked,s')) : Roomy options revoked := by
  obtain ⟨_,_,rfl⟩ := revokeWhere_ok done
  exact roomy.same rfl rfl (by simp [revokedWhere]) rfl
theorem issue_roomy {data issued : Data} {account : String × Balance} {request : Issue} {value : Grant}
    (roomy : Roomy options data) (done : issue world options data account request s = (.ok (value,issued),s')) :
    Roomy options issued := by
  simp only [issue,bind_ok,refuseIf_ok,pure_ok,Nat.not_le] at done
  obtain ⟨_,_,⟨room,rfl⟩,rest⟩ := done
  obtain ⟨_,_,_,_,_,_,_,_,_,_,_,_,_,_,_,_,_,_,same,_⟩ := rest
  cases same
  exact ⟨roomy.accounts,roomy.identities,by simpa using Nat.succ_le_of_lt room,roomy.operations⟩
theorem authorize_roomy {identities : List Verified} {request : Authorisation} {data after : Data}
    {response : GrantResponse} (roomy : Roomy options data)
    (done : authorize world options identities request data s = (.ok (response,after),s')) : Roomy options after := by
  simp only [authorize,bind_ok,pure_ok] at done
  obtain ⟨_,_,_,⟨records,enrolled⟩,_,enrolling,adjusted,_,adjusting,revoked,_,revoking,⟨value,issued⟩,_,issuing,
    response',_,_,same,_⟩ := done
  cases same
  have before : Roomy options revoked := by
    obtain ⟨_,rfl,_⟩ := revokeEarlier_ok revoking
    have adjusted' := adjustAccount_roomy (enrolAll_roomy identities roomy enrolling) adjusting
    split
    · exact adjusted'.same rfl rfl (by simp [revokedWhere]) rfl
    · exact adjusted'
  exact issue_roomy before issuing
theorem reserve_roomy {token operationId : String} {bytes : Int} {data after : Data} {reservation : Reservation}
    (roomy : Roomy options data)
    (done : reserve world options token operationId bytes data s =
      (.ok (reservation,after),s')) : Roomy options after := by
  simp only [reserve,bind_ok,refuseIf_ok,pure_ok] at done
  obtain ⟨found,_,_,_,_,⟨_,rfl⟩,_,_,⟨_,rfl⟩,_,_,⟨room,rfl⟩,_,_,_,same,_⟩ := done
  cases same
  split_ifs with known
  · exact roomy
  · have fresh : data.operations.find? (fun o => o.grant = token && o.operationId = operationId) = none := by
      simpa using known
    have few : data.operations.length < options.operationCapacity := by
      rw [not_and] at room
      exact Nat.lt_of_not_le (room fresh)
    have set := setHolding_roomy roomy found.2.1 (.balance (if (decide' token operationId bytes found.2.2).accepted then
      { found.2.2 with spent := found.2.2.spent + bytes } else found.2.2))
    rw [fresh]
    exact ⟨by simpa [record,Data.setHolding,replaceHolding_length] using roomy.accounts,roomy.identities,roomy.grants,
      by simpa [record,Data.setHolding] using Nat.succ_le_of_lt few⟩
theorem renew_roomy {token operationId : String} {websiteIdentity : Option String} {data after : Data}
    {response : GrantResponse} (roomy : Roomy options data)
    (done : renew world options token operationId websiteIdentity data s = (.ok (response,after),s')) :
    Roomy options after := by
  simp only [renew,bind_ok,refuseIf_ok] at done
  obtain ⟨found,_,_,_,_,⟨_,rfl⟩,rest⟩ := done
  cases renewal : found.1.renewal with
  | some renewal' =>
    simp only [renewal,repeatRenewal,bind_ok,refuseIf_ok,pure_ok] at rest
    obtain ⟨_,_,⟨_,rfl⟩,_,_,_,_,_,_,same,_⟩ := rest
    cases same
    exact roomy
  | none =>
    simp only [renewal,firstRenewal,bind_ok,pure_ok] at rest
    obtain ⟨⟨value,issued⟩,_,issuing,_,_,_,same,_⟩ := rest
    cases same
    exact (issue_roomy roomy issuing).same rfl rfl (setRenewal_length _ _ _) rfl
/-- What a request leaves is within the capacities before it is validated: a request
    there is no room for was refused by its own check. -/
theorem operation_roomy {request : Request} {data after : Data} {answer : Answer} (roomy : Roomy options data)
    (done : request.operation world options data s = (.ok (answer,after),s')) : Roomy options after := by
  cases request with
  | authorize identities request =>
    simp only [Request.operation,bind_ok,pure_ok] at done
    obtain ⟨⟨response,after'⟩,_,answered,same,_⟩ := done
    cases same
    exact authorize_roomy roomy answered
  | inspectGrant token =>
    simp only [Request.operation,bind_ok,pure_ok] at done
    obtain ⟨_,_,_,same,_⟩ := done
    cases same
    exact roomy
  | reserve token operationId bytes =>
    simp only [Request.operation,bind_ok,pure_ok] at done
    obtain ⟨⟨reservation,after'⟩,_,answered,same,_⟩ := done
    cases same
    exact reserve_roomy roomy answered
  | renew token operationId websiteIdentity =>
    simp only [Request.operation,bind_ok,pure_ok] at done
    obtain ⟨⟨response,after'⟩,_,answered,same,_⟩ := done
    cases same
    exact renew_roomy roomy answered
  | revokeGrant token =>
    simp only [Request.operation,bind_ok,pure_ok] at done
    obtain ⟨revoked,_,revoking,same,_⟩ := done
    cases same
    simp only [revokeGrant,bind_ok] at revoking
    obtain ⟨_,_,_,revoking⟩ := revoking
    exact revokeWhere_roomy roomy revoking

/-- A request that no room is left for is refused with its own refusal. -/
structure Refuses (world : World) (options : Options) (data : Data) : Prop where
  accounts : options.identityCapacity ≤ data.identities.length ∨ options.accountCapacity ≤ data.accounts.length →
    ∀ id method s, enrolNew world options data id method s = (.error ⟨"account-capacity",429⟩,s)
  grants : options.grantCapacity ≤ data.grants.length → ∀ account request s,
    issue world options data account request s = (.error ⟨"account-grant-capacity",429⟩,s)
  operations : options.operationCapacity ≤ data.operations.length → ∀ token operationId bytes s found s',
    grant world data token s = (.ok found,s') → hex operationId 32 = true → amount bytes = true → 1 ≤ bytes →
    data.decision token operationId = none →
    reserve world options token operationId bytes data s = (.error ⟨"account-operation-capacity",429⟩,s')
theorem refuses (world : World) (options : Options) (data : Data) : Refuses world options data where
  accounts full _ _ s := bind_error (refuseIf_stop full s)
  grants full _ _ s := bind_error (refuseIf_stop full s)
  operations full token operationId bytes s found s' usable operation size some fresh := by
    unfold Data.decision at fresh
    unfold reserve
    rw [bind_pass usable,bind_pass (refuseIf_pass (by simp [operation,size,some]) s')]
    dsimp only
    rw [fresh,bind_pass (refuseIf_pass (by simp) s')]
    exact bind_error (refuseIf_stop ⟨rfl,full⟩ s')

/-! ### States applied and written -/

theorem validate_sound {done : PUnit}
    (checked : validate world options data s = (.ok done,s')) : data.sound options := by
  simp only [validate,bind_ok,refuseIf_ok,time_ok] at checked
  obtain ⟨_,_,⟨kept,rfl⟩,_,_,_,valid,_⟩ := checked
  exact ⟨not_not.mp kept,not_not.mp (not_or.mp valid).2⟩
theorem apply_sound {entry : Entry} {working next : Data} {answer : Answer} (before : working.sound options)
    (done : apply world options entry working s = (.ok (answer,next),s')) : next.sound options := by
  simp only [apply,bind_ok] at done
  obtain ⟨_,_,_,_,_,_,_,_,_,_,_,_,_,_,_,_,_,_,committed⟩ := done
  unfold commit at committed
  split_ifs at committed with write
  · simp only [bind_ok,pure_ok] at committed
    obtain ⟨_,_,_,_,_,validated,same,_⟩ := committed
    cases same
    exact validate_sound validated
  · simp only [pure_ok] at committed
    obtain ⟨same,_⟩ := committed
    cases same
    exact before

/-- The states a queue holds have passed their checks. -/
structure Checked (options : Options) {φ : Type}
    (q : DurableQueue.Queue Data Side Request φ Answer Refusal) : Prop where
  memory : q.memory.sound options
  file : q.file.sound options
  applying : ∀ left working changed held, q.phase = .applying left working changed held → working.sound options
  writing : ∀ working replaced held, q.phase = .writing working replaced held → working.sound options
theorem one_sound {side : Side} {request : Request} {aborted : Bool × Bool}
    (before : working.sound options) :
    (DurableQueue.one (queue world options capacity) working side (request,aborted)).2.1.sound options := by
  unfold DurableQueue.one
  cases applied : (queue world options capacity).apply request aborted working side with
  | mk outcome side' =>
    cases outcome with
    | error refusal => exact before
    | ok done =>
      dsimp only
      split_ifs
      · have called : apply world options ⟨request,aborted.1,aborted.2⟩ working side = (.ok done,side') := applied
        exact apply_sound before called
      · exact before
theorem settle_checked {q : DurableQueue.Queue Data Side Request (Bool × Bool) Answer Refusal}
    (checked : Checked options q) (sound : working.sound options) (left : List (Nat × Request)) (changed : Bool)
    (held : List (DurableQueue.Settled Answer Refusal)) (outcome : DurableQueue.Settled Answer Refusal) :
    Checked options (DurableQueue.settle q left working changed held outcome) := by
  unfold DurableQueue.settle
  split_ifs
  · exact ⟨checked.memory,checked.file,fun _ _ _ _ same => (by cases same; exact sound),
      fun _ _ _ same => (by cases same)⟩
  · exact ⟨checked.memory,checked.file,fun _ _ _ _ same => (by cases same; exact sound),
      fun _ _ _ same => (by cases same)⟩
theorem step_checked {q : DurableQueue.Queue Data Side Request (Bool × Bool) Answer Refusal}
    (checked : Checked options q) (event : DurableQueue.Event Request (Bool × Bool)) :
    Checked options (DurableQueue.step (queue world options capacity) q event) := by
  cases event with
  | submit request =>
    unfold DurableQueue.step
    dsimp only
    split_ifs
    · exact checked
    · exact ⟨checked.memory,checked.file,checked.applying,checked.writing⟩
  | settle =>
    unfold DurableQueue.step
    dsimp only
    split_ifs
    · exact ⟨checked.memory,checked.file,checked.applying,checked.writing⟩
    · exact checked
  | start =>
    unfold DurableQueue.step
    dsimp only
    split
    · exact ⟨checked.memory,checked.file,fun _ _ _ _ same => (by cases same; exact checked.memory),
        fun _ _ _ same => (by cases same)⟩
    · exact checked
  | apply aborted =>
    unfold DurableQueue.step DurableQueue.applyNext
    dsimp only
    split
    · rename_i number request left working changed held applying
      have sound := checked.applying _ _ _ _ applying
      split_ifs
      · exact settle_checked checked sound _ _ _ _
      · refine settle_checked ?_ (one_sound sound) _ _ _ _
        exact ⟨checked.memory,checked.file,checked.applying,checked.writing⟩
    · exact checked
  | finish =>
    unfold DurableQueue.step
    dsimp only
    split
    · rename_i working changed held applying
      split_ifs
      · exact ⟨checked.memory,checked.file,fun _ _ _ _ same => (by cases same),
          fun _ _ _ same => (by cases same; exact checked.applying _ _ _ _ applying)⟩
      · exact ⟨checked.memory,checked.file,fun _ _ _ _ same => (by cases same),fun _ _ _ same => (by cases same)⟩
    · exact checked
  | replace =>
    unfold DurableQueue.step
    dsimp only
    split
    · rename_i working replaced held writing
      have sound := checked.writing _ _ _ writing
      exact ⟨checked.memory,sound,fun _ _ _ _ same => (by cases same),fun _ _ _ same => (by cases same; exact sound)⟩
    · exact checked
  | written =>
    unfold DurableQueue.step
    dsimp only
    split
    · rename_i working held writing
      exact ⟨checked.writing _ _ _ writing,checked.file,fun _ _ _ _ same => (by cases same),
        fun _ _ _ same => (by cases same)⟩
    · exact checked
  | failed =>
    unfold DurableQueue.step
    dsimp only
    split
    · exact ⟨checked.memory,checked.file,fun _ _ _ _ same => (by cases same),fun _ _ _ same => (by cases same)⟩
    · exact checked
  | stop => exact ⟨checked.memory,checked.file,checked.applying,checked.writing⟩
theorem queue_checked {file : Data} (sound : file.sound options) (side : Side)
    (events : List (DurableQueue.Event Request (Bool × Bool))) :
    Checked options (DurableQueue.run (queue world options capacity) (DurableQueue.opened file side) events) := by
  have start : Checked options (DurableQueue.opened file side :
      DurableQueue.Queue Data Side Request (Bool × Bool) Answer Refusal) :=
    ⟨sound,sound,fun _ _ _ _ same => (by cases same),fun _ _ _ same => (by cases same)⟩
  unfold DurableQueue.run
  exact List.foldlRecOn (motive := Checked options) events _ start fun q checked event _ => step_checked checked event

/-! ### The wall clock of a process -/

/-- No reading of the wall clock is beyond what a script can count. -/
abbrev Countable (s s' : Side) : Prop := s.highestWall ≤ maxSafe → s'.highestWall ≤ maxSafe
abbrev Counts {α : Type} (m : LedgerM α) : Prop := Within Countable m
theorem Counts.bind {α β : Type} {m : LedgerM α} {f : α → LedgerM β} (first : Counts m) (second : ∀ a, Counts (f a)) :
    Counts (m >>= f) := Within.bind (r := Countable) (fun _ _ _ one two safe => two (one safe)) first second
theorem Counts.of_same {α : Type} {m : LedgerM α} (same : ∀ s, (m s).2.highestWall = s.highestWall) : Counts m := by
  intro s safe
  rw [same s]
  exact safe
theorem Counts.refuseIf (c : Prop) [Decidable c] (e : Refusal) : Counts (Effect.refuseIf c e : LedgerM PUnit) :=
  Within.refuseIf (fun _ safe => safe) c e
theorem Counts.require {α : Type} (o : Option α) (e : Refusal) : Counts (Effect.require o e : LedgerM α) :=
  Within.require (fun _ safe => safe) o e
theorem Counts.pure {α : Type} (a : α) : Counts (Pure.pure a : LedgerM α) := fun _ safe => safe
/-- What the clock of this world shows is a safe integer. -/
def World.countable (world : World) : Prop := ∀ n here, world.now n = some here → isSafeInteger here = true

section
variable (clock : world.countable)
include clock

theorem time_counts : Counts (time world) := by
  intro s safe
  unfold time
  cases reading : world.now s.walls with
  | none => exact safe
  | some moment =>
    dsimp only
    split_ifs
    · exact safe
    · have small := clock _ _ reading
      simp only [isSafeInteger,Bool.and_eq_true,decide_eq_true_eq] at small
      exact small.2
theorem grant_counts (data : Data) (token : String) : Counts (grant world data token) := by
  unfold grant
  repeat' first
    | exact Counts.pure _
    | exact Counts.of_same fun _ => rfl
    | exact time_counts clock
    | exact Counts.refuseIf _ _
    | exact Counts.require _ _
    | refine Counts.bind ?_ fun _ => ?_
omit clock in
theorem snapshot_counts (data : Data) (account : String × Balance) : Counts (snapshot data account) :=
  .bind (.require _ _) fun _ => .pure _
omit clock in
theorem grantResponse_counts (data : Data) (value : Grant) (fresh : Bool) : Counts (grantResponse data value fresh) :=
  .bind (.require _ _) fun _ => .bind (snapshot_counts _ _) fun _ => .pure _
theorem issue_counts (data : Data) (account : String × Balance) (request : Issue) :
    Counts (issue world options data account request) := by
  have ends : ∀ mono, Counts (delegationEnd world request mono) := by
    intro mono
    unfold delegationEnd
    split
    · exact .bind (.of_same fun _ => rfl) fun _ => .bind (.require _ _) fun _ => .pure _
    · exact .bind (time_counts clock) fun _ => .pure _
  exact .bind (.refuseIf _ _) fun _ => .bind (.of_same fun _ => rfl) fun _ => .bind (time_counts clock) fun _ =>
    .bind (.of_same fun _ => rfl) fun _ => .bind (time_counts clock) fun _ => .bind (ends _) fun _ =>
    .bind (.of_same fun _ => rfl) fun _ => .pure _
theorem liveGrants_counts (grants : List Grant) : Counts (liveGrants world grants) := by
  induction grants with
  | nil => exact .pure _
  | cons grant rest ih => exact .bind (time_counts clock) fun _ => .bind ih fun _ => .pure _
omit clock in
theorem enrol_counts (data : Data) (value : Verified) : Counts (enrol world options data value) := by
  refine .bind (.bind (.refuseIf _ _) fun _ => .pure _) fun id => ?_
  split
  · exact .pure _
  · exact .bind (.refuseIf _ _) fun _ => .bind (.of_same fun _ => rfl) fun _ => .pure _
omit clock in
theorem enrolAll_counts (values : List Verified) : ∀ data, Counts (enrolAll world options data values) := by
  induction values with
  | nil => intro data; exact .pure _
  | cons value rest ih => intro data; exact .bind (enrol_counts data value) fun _ => .bind (ih _) fun _ => .pure _
omit clock in
theorem adjustAccount_counts (data : Data) (records : List Identity) (request : Authorisation) :
    Counts (adjustAccount data records request) := by
  refine .bind (.require _ _) fun _ => .bind (.require _ _) fun account => .bind ?_ fun _ => .pure _
  unfold linkRecords
  split
  · refine .bind (.require _ _) fun _ => ?_
    split_ifs
    · exact .pure _
    · exact .bind (.refuseIf _ _) fun _ => .pure _
  · exact .pure _
theorem authorize_counts (identities : List Verified) (request : Authorisation) (data : Data) :
    Counts (authorize world options identities request data) := by
  have checks : Counts (checkAuthorisation world options identities request) := by
    unfold checkAuthorisation
    repeat' first
      | exact time_counts clock
      | exact Counts.refuseIf _ _
      | refine Counts.bind ?_ fun _ => ?_
  refine .bind checks fun _ => .bind (enrolAll_counts _ _) fun _ => .bind (adjustAccount_counts _ _ _) fun _ =>
    .bind ?_ fun _ => .bind (issue_counts clock _ _ _) fun _ => .bind (grantResponse_counts _ _ _) fun _ => .pure _
  unfold revokeEarlier
  split_ifs
  · exact .bind (.refuseIf _ _) fun _ => .pure _
  · exact .pure _
theorem operation_counts (request : Request) (data : Data) : Counts (request.operation world options data) := by
  cases request with
  | authorize identities request => exact .bind (authorize_counts clock _ _ _) fun _ => .pure _
  | inspectGrant token =>
    exact .bind (.bind (grant_counts clock _ _) fun _ => .bind (snapshot_counts _ _) fun _ => .pure _) fun _ => .pure _
  | reserve token operationId bytes =>
    refine .bind ?_ fun _ => .pure _
    exact .bind (grant_counts clock _ _) fun _ => .bind (.refuseIf _ _) fun _ => .bind (.refuseIf _ _) fun _ =>
      .bind (.refuseIf _ _) fun _ => .bind (snapshot_counts _ _) fun _ => .pure _
  | renew token operationId websiteIdentity =>
    refine .bind ?_ fun _ => .pure _
    refine .bind (grant_counts clock _ _) fun _ => .bind (.refuseIf _ _) fun _ => ?_
    split
    · exact .bind (.refuseIf _ _) fun _ => .bind (grant_counts clock _ _) fun _ =>
        .bind (grantResponse_counts _ _ _) fun _ => .pure _
    · exact .bind (issue_counts clock _ _ _) fun _ => .bind (grantResponse_counts _ _ _) fun _ => .pure _
  | revokeGrant token =>
    exact .bind (.bind (grant_counts clock _ _) fun _ => .bind (.refuseIf _ _) fun _ => .pure _) fun _ => .pure _
theorem validate_counts (data : Data) : Counts (validate world options data) :=
  .bind (.refuseIf _ _) fun _ => .bind (time_counts clock) fun _ => .refuseIf _ _
theorem apply_counts (entry : Entry) (working : Data) : Counts (apply world options entry working) := by
  refine .bind (.refuseIf _ _) fun _ => .bind (time_counts clock) fun _ => .bind (.refuseIf _ _) fun _ =>
    .bind ?_ fun _ => .bind (operation_counts clock _ _) fun _ => .bind (.refuseIf _ _) fun _ => ?_
  · unfold candidate
    split_ifs
    · exact .bind (liveGrants_counts clock _) fun _ => .bind (.of_same fun _ => rfl) fun _ => .pure _
    · exact .pure _
  · unfold commit
    split_ifs
    · exact .bind (time_counts clock) fun _ => .bind (validate_counts clock _) fun _ => .pure _
    · exact .pure _
theorem lose_counts (lost : List Entry) : ∀ working side, Countable side (lose world options working side lost) := by
  induction lost with
  | nil => intro working side safe; exact safe
  | cons entry rest ih =>
    intro working side safe
    have counts : Counts (apply world options entry working) := apply_counts clock entry working
    have small := counts side safe
    unfold lose
    cases applied : apply world options entry working side with
    | mk outcome side' =>
      rw [applied] at small
      cases outcome with
      | ok done => exact ih done.2 side' small
      | error refusal => exact ih working side' small

theorem reopen_counts (file : Data) (side : Side) (safe : file.lastWall ≤ maxSafe) :
    (Ledger.reopen world options file side).2.highestWall ≤ maxSafe := by
  have rest : Counts (do
      validate world options file
      let moment ← time world
      let mono ← monotonicNow world
      rebuildExpiries options moment mono file.grants) := by
    refine .bind (validate_counts clock _) fun _ => .bind (time_counts clock) fun _ =>
      .bind (.of_same fun _ => rfl) fun _ => ?_
    intro s small
    unfold rebuildExpiries
    exact small
  have start : max 0 file.lastWall ≤ maxSafe := max_le (by decide) safe
  have opened : Ledger.reopen world options file side = _ := bind_pass rfl
  rw [opened]
  exact rest _ start

/-- The file has passed its checks and the wall clock can be written. -/
structure Writable (options : Options) (p : Process) : Prop where
  sound : p.data.sound options
  wall : p.side.highestWall ≤ maxSafe
theorem step_writable {p : Process} (step : Step) (before : Writable options p) :
    Writable options (p.step world options step) := by
  unfold Process.step
  cases step with
  | request entry =>
    dsimp only
    split_ifs with up
    · have counts : Counts (apply world options entry p.data) := apply_counts clock entry p.data
      have wall := counts p.side before.wall
      unfold Process.answer
      cases applied : apply world options entry p.data p.side with
      | mk outcome side =>
        rw [applied] at wall
        cases outcome with
        | ok done => exact ⟨apply_sound before.sound applied,wall⟩
        | error refusal => exact ⟨before.sound,wall⟩
    · exact before
  | crash lost =>
    dsimp only
    split_ifs with up
    · exact ⟨before.sound,lose_counts clock lost _ _ before.wall⟩
    · exact before
  | close =>
    dsimp only
    split_ifs with up
    · have sound := before.sound
      have wall := before.wall
      obtain ⟨⟨secret,safe,low⟩,valid⟩ := sound
      simp only [isSafeInteger,Bool.and_eq_true,decide_eq_true_eq] at safe
      refine ⟨⟨⟨secret,?_,?_⟩,valid⟩,wall⟩
      · unfold Process.close isSafeInteger
        simp only [Bool.and_eq_true,decide_eq_true_eq]
        omega
      · unfold Process.close
        dsimp only
        omega
    · exact before
  | reopen =>
    dsimp only
    split_ifs with up
    · exact before
    · have sound := before.sound
      have wall : (Ledger.reopen world options p.data p.side).2.highestWall ≤ maxSafe := by
        have safe := sound.1.2.1
        simp only [isSafeInteger,Bool.and_eq_true,decide_eq_true_eq] at safe
        exact reopen_counts clock p.data p.side safe.2
      unfold Process.reopen
      cases opened : Ledger.reopen world options p.data p.side with
      | mk outcome side =>
        rw [opened] at wall
        cases outcome with
        | ok _ => exact ⟨sound,wall⟩
        | error refusal => exact ⟨sound,wall⟩

end

end
/-! ### A ledger that outgrows its store -/

/-- Clocks that stand still, and one token, account and identity. -/
def patientWorld : World where
  now _ := some 1000
  monotonic _ := 0
  token _ := digits 64 0
  accountId _ := digits 32 0
  digest _ _ := digits 64 0
def largeOptions : Options := ⟨0,120,10800,1,1,1,32768⟩
def pageGrant : Grant where
  token := digits 64 0
  accountId := digits 32 0
  pagePubkey := digits 64 9
  methods := ["nostr"]
  websiteIdentity := none
  epoch := 1
  expiresAt := 100000
  delegationExpiresAt := 100000
  revoked := false
  renewal := none
def largeReserve (k : Nat) : Request := .reserve (digits 64 0) (numbered 32 k) 1000000000000
def refusedCharge (k : Nat) : Decision := ⟨digits 64 0,numbered 32 k,1000000000000,false⟩
/-- The state after so many charges. -/
def filled (n : Nat) : Data where
  secret := digits 64 0
  lastWall := 1000
  accounts := [⟨digits 32 0,.balance ⟨0,0,1,1⟩⟩]
  identities := [⟨digits 64 0,"nostr",digits 32 0⟩]
  grants := [pageGrant]
  operations := (List.range n).map refusedCharge
/-- A page is granted and charges its grant again and again. -/
def fillingSteps (n : Nat) : List Step :=
  [.reopen,.request ⟨asked [viewer] none,false,false⟩] ++
    (List.range n).map (fun k => .request ⟨largeReserve k,false,false⟩)
def filling (n : Nat) : Process :=
  (fresh (digits 64 0) 0 ⟨0,fun _ => none,0,0,0,0⟩).run patientWorld largeOptions (fillingSteps n)

/-- The process has the grant of the page. -/
structure Steady (s : Side) : Prop where
  wall : s.highestWall = 1000
  expiry : s.expiries (digits 64 0) = some ⟨99000,99000⟩
/-- The computation gives this value and the process keeps the grant. -/
def Returns {α : Type} (m : LedgerM α) (a : α) : Prop := ∀ s, Steady s → ∃ s', m s = (.ok a,s') ∧ Steady s'
theorem Returns.bind {α β : Type} {m : LedgerM α} {f : α → LedgerM β} {a : α} {b : β} (first : Returns m a)
    (second : Returns (f a) b) : Returns (m >>= f) b := by
  intro s steady
  obtain ⟨s₁,done,steady₁⟩ := first s steady
  obtain ⟨s₂,done₂,steady₂⟩ := second s₁ steady₁
  exact ⟨s₂,(bind_pass done).trans done₂,steady₂⟩
theorem Returns.pure {α : Type} (a : α) : Returns (Pure.pure a : LedgerM α) a := fun s steady => ⟨s,rfl,steady⟩
theorem Returns.refuseIf {c : Prop} [Decidable c] {e : Refusal} (holds : ¬ c) :
    Returns (Effect.refuseIf c e : LedgerM PUnit) ⟨⟩ :=
  fun s steady => ⟨s,refuseIf_pass holds s,steady⟩
theorem Returns.require {α : Type} {a : α} {e : Refusal} : Returns (Effect.require (some a) e : LedgerM α) a :=
  fun s steady => ⟨s,rfl,steady⟩
theorem time_returns : Returns (time patientWorld) 1000 := by
  intro s steady
  refine ⟨{ s with walls := s.walls + 1, highestWall := 1000 },time_ok.mpr ⟨rfl,by rw [steady.wall],rfl⟩,rfl,
    steady.expiry⟩
theorem prune_returns (n : Nat) : Returns (prune patientWorld (filled n)) (filled n) := by
  have live : Returns (liveGrants patientWorld [pageGrant]) [pageGrant] :=
    time_returns.bind ((Returns.pure []).bind (Returns.pure _))
  have kept : Returns (keepExpiries [digits 64 0]) ⟨⟩ := by
    intro s steady
    refine ⟨_,rfl,steady.wall,?_⟩
    dsimp only
    rw [if_pos (by simp)]
    exact steady.expiry
  have same : (filled n).operations.filter (fun decision => decision.grant ∈ [digits 64 0]) =
      (filled n).operations := by
    refine List.filter_eq_self.mpr fun decision member => ?_
    obtain ⟨k,_,rfl⟩ := List.mem_map.mp member
    simp [refusedCharge]
  refine live.bind (kept.bind ?_)
  have unchanged : ({ filled n with
      grants := [pageGrant]
      operations :=
        (filled n).operations.filter (fun decision => decision.grant ∈ [digits 64 0]) } : Data) = filled n := by
    rw [same]
    rfl
  intro s steady
  refine ⟨s,?_,steady⟩
  change ((Except.ok _,s) : Except Refusal Data × Side) = _
  exact congrArg (fun data => ((Except.ok data,s) : Except Refusal Data × Side)) unchanged
theorem grant_returns (n : Nat) :
    Returns (grant patientWorld (filled n) (digits 64 0)) (pageGrant,digits 32 0,⟨0,0,1,1⟩) := by
  have expiry : Returns (expiryOf (digits 64 0)) (some ⟨99000,99000⟩) :=
    fun s steady => ⟨s,by rw [expiryOf,steady.expiry],steady⟩
  have mono : Returns (monotonicNow patientWorld) 0 := fun s steady => ⟨_,rfl,steady.wall,steady.expiry⟩
  have found : (filled n).grants.find? (fun grant => grant.token = digits 64 0) = some pageGrant := by
    simp [filled,pageGrant]
  have owner : canonical (filled n) pageGrant.accountId = some (digits 32 0,⟨0,0,1,1⟩) := by
    simp [canonical,canonicalFrom,filled,pageGrant]
  refine expiry.bind (mono.bind ?_)
  rw [found]
  refine Returns.require.bind ((Returns.refuseIf (by decide)).bind
    (time_returns.bind ((Returns.refuseIf (by decide)).bind
    (time_returns.bind ((Returns.refuseIf (by decide)).bind
      (Returns.require.bind ((Returns.refuseIf (by norm_num)).bind ?_)))))))
  rw [owner]
  exact Returns.require.bind ((Returns.refuseIf (by decide)).bind (Returns.pure _))
theorem filled_valid (few : n ≤ 32768) : (filled n).valid largeOptions := by
  refine ⟨⟨le_refl 1,le_refl 1,le_refl 1,by simpa [filled,largeOptions] using few⟩,
    ⟨List.nodup_singleton _,List.nodup_singleton _,List.nodup_singleton _,?_⟩,?_,?_,?_,?_⟩
  · exact numbered_nodup 32 (by omega) _ _ fun m n same => (Prod.mk.inj same).2
  · intro account member
    obtain rfl := List.mem_singleton.mp member
    rfl
  · intro identity member
    obtain rfl := List.mem_singleton.mp member
    rfl
  · intro grant member
    obtain rfl := List.mem_singleton.mp member
    rfl
  · intro decision member
    obtain ⟨k,_,rfl⟩ := List.mem_map.mp member
    have granted : (filled n).grants.any (fun grant => grant.token = digits 64 0) = true := by simp [filled,pageGrant]
    unfold decisionValid refusedCharge
    simp only [numbered_hex (show 4 ≤ 32 by omega),granted,Bool.true_and,Bool.and_true]
    rfl
def exhausted : Reservation := ⟨false,false,0,some "exhausted",⟨0,0,0,1,1,["nostr"]⟩⟩
theorem snapshot_returns (n : Nat) : Returns (snapshot (filled n) (digits 32 0,⟨0,0,1,1⟩)) ⟨0,0,0,1,1,["nostr"]⟩ := by
  have owner : canonical (filled n) (digits 32 0) = some (digits 32 0,⟨0,0,1,1⟩) := by
    simp [canonical,canonicalFrom,filled]
  have linked : linkedMethods (filled n) (digits 32 0) = some ["nostr"] := by
    unfold linkedMethods
    rw [show (filled n).identities = [⟨digits 64 0,"nostr",digits 32 0⟩] from rfl]
    simp [owner]
  unfold snapshot
  rw [linked]
  exact Returns.require.bind (Returns.pure _)
theorem reserve_returns (few : n < 32768) : Returns
    (reserve patientWorld largeOptions (digits 64 0) (numbered 32 n) 1000000000000 (filled n)) (exhausted,
      filled (n + 1)) := by
  have fresh : (filled n).operations.find? (fun o => o.grant = digits 64 0 && o.operationId = numbered 32 n) =
      none := by
    refine List.find?_eq_none.mpr fun decision member same => ?_
    obtain ⟨k,inside,rfl⟩ := List.mem_map.mp member
    rw [List.mem_range] at inside
    rw [Bool.and_eq_true] at same
    have equal : numbered 32 k = numbered 32 n := of_decide_eq_true same.2
    have index := numbered_injective ⟨by omega,by omega⟩ equal
    omega
  have recorded :
      record (filled n) (digits 32 0,⟨0,0,1,1⟩) (decide' (digits 64 0) (numbered 32 n) 1000000000000 ⟨0,0,1,1⟩) =
      ((digits 32 0,⟨0,0,1,1⟩),filled (n + 1)) := by
    simp [record,decide',filled,Data.setHolding,replaceHolding,List.range_succ,refusedCharge]
  unfold reserve
  refine (grant_returns n).bind ((Returns.refuseIf ?_).bind ?_)
  · rw [not_not]
    exact ⟨numbered_hex (by omega) n,rfl,by decide⟩
  · dsimp only
    rw [fresh]
    refine (Returns.refuseIf (by simp)).bind ((Returns.refuseIf ?_).bind ?_)
    · simp [filled,largeOptions]
      omega
    · rw [Option.getD_none]
      rw [show (if (Option.none : Option Decision).isSome = true
        then ((digits 32 0,(⟨0,0,1,1⟩ : Balance)),filled n) else
        record (filled n) (digits 32 0,⟨0,0,1,1⟩)
          (decide' (digits 64 0) (numbered 32 n) 1000000000000 ⟨0,0,1,1⟩)) = _ from recorded]
      exact (snapshot_returns (n + 1)).bind (Returns.pure _)
theorem apply_returns (few : n < 32768) : Returns
    (apply patientWorld largeOptions ⟨largeReserve n,false,false⟩ (filled n)) (.reserved exhausted,filled (n + 1)) := by
  have validated : Returns (validate patientWorld largeOptions (filled (n + 1))) ⟨⟩ := by
    have secret : hex (filled (n + 1)).secret 64 = true ∧ isSafeInteger (filled (n + 1)).lastWall = true ∧
        0 ≤ (filled (n + 1)).lastWall :=
      ⟨show hex (digits 64 0) 64 = true by decide,rfl,show (0 : Int) ≤ 1000 by decide⟩
    refine (Returns.refuseIf (not_not.mpr secret)).bind (time_returns.bind (Returns.refuseIf ?_))
    rintro (late | invalid)
    · exact lt_irrefl _ late
    · exact invalid (filled_valid (by omega))
  have operated :
      Returns ((largeReserve n).operation patientWorld largeOptions (filled n)) (.reserved exhausted,filled (n + 1)) :=
    (reserve_returns few).bind (Returns.pure _)
  have committed :
      Returns (commit patientWorld largeOptions (largeReserve n) (filled n) (.reserved exhausted,filled (n + 1)))
      (.reserved exhausted,filled (n + 1)) := time_returns.bind (validated.bind (Returns.pure _))
  have candidate : Returns (candidate patientWorld (largeReserve n) (filled n)) (filled n) := prune_returns n
  refine (Returns.refuseIf Bool.false_ne_true).bind
    (time_returns.bind ((Returns.refuseIf ?_).bind (candidate.bind (operated.bind
    ((Returns.refuseIf Bool.false_ne_true).bind committed)))))
  exact lt_irrefl (1000 : Int)
theorem filling_start : (filling 0).data = filled 0 ∧ (filling 0).up = true ∧ Steady (filling 0).side := by
  have expiry : ((filling 0).side.expiries (digits 64 0)).map (fun e => (e.grant,e.delegation)) =
      some (99000,99000) := by
    decide +kernel
  refine ⟨by decide +kernel,by decide +kernel,by decide +kernel,?_⟩
  obtain ⟨⟨ends,delegated⟩,found,same⟩ := Option.map_eq_some_iff.mp expiry
  obtain ⟨rfl,rfl⟩ := Prod.mk.inj same
  exact found
theorem filling_filled (few : n ≤ 32768) : (filling n).data = filled n ∧ (filling n).up = true ∧
    Steady (filling n).side := by
  induction n with
  | zero => exact filling_start
  | succ n ih =>
    obtain ⟨data,up,steady⟩ := ih (by omega)
    have more :
        filling (n + 1) = (filling n).step patientWorld largeOptions (.request ⟨largeReserve n,false,false⟩) := by
      unfold filling fillingSteps Process.run
      rw [List.range_succ,List.map_append,← List.append_assoc,List.foldl_append]
      rfl
    obtain ⟨side,applied,steady'⟩ := apply_returns (n := n) (by omega) _ steady
    rw [← data] at applied
    have answered :
        filling (n + 1) = (filling n).answered (largeReserve n) (.reserved exhausted) (filled (n + 1)) side := by
      rw [more]
      unfold Process.step
      dsimp only
      rw [if_pos up]
      unfold Process.answer
      dsimp only
      rw [applied]
    rw [answered]
    exact ⟨rfl,up,steady'⟩
theorem filled_sound (few : n ≤ 32768) : (filled n).sound largeOptions :=
  ⟨⟨show hex (digits 64 0) 64 = true by decide,rfl,show (0 : Int) ≤ 1000 by decide⟩,filled_valid few⟩

theorem refusedCharge_length (k : Nat) : (write (refusedCharge k).value).length = 164 := by
  have keys : (JsonText.quote (lit "grant")).length = 7 ∧ (JsonText.quote (lit "operationId")).length = 13 ∧
      (JsonText.quote (lit "bytes")).length = 7 ∧ (JsonText.quote (lit "accepted")).length = 10 ∧
      (write (.bool false)).length = 5 := by decide
  have bytes : (write (.number ((1000000000000 : Int) : ℚ))).length = 13 := by decide +kernel
  unfold Decision.value refusedCharge
  rw [object_length]
  simp only [List.map_cons,List.map_nil,List.sum_cons,List.sum_nil,
    (textValue_hex (numbered_hex (show 4 ≤ 32 by omega) k)).2,
    (textValue_hex (show hex (digits 64 0) 64 = true by decide)).2,keys,bytes,Nat.reduceAdd,Nat.reduceSub]
theorem filled_length (some : 1 ≤ n) : (filled n).text.length = 718 + 165 * n := by
  have keys : (JsonText.quote (lit "v")).length = 3 ∧ (JsonText.quote (lit "secret")).length = 8 ∧
      (JsonText.quote (lit "lastWall")).length = 10 ∧ (JsonText.quote (lit "accounts")).length = 10 ∧
      (JsonText.quote (lit "identities")).length = 12 ∧ (JsonText.quote (lit "grants")).length = 8 ∧
      (JsonText.quote (lit "operations")).length = 12 := by decide
  have accounts : (write (.array ((filled 0).accounts.map Account.value))).length = 91 := by decide +kernel
  have identities : (write (.array ((filled 0).identities.map Identity.value))).length = 139 := by decide +kernel
  have grants : (write (.array ((filled 0).grants.map Grant.value))).length = 337 := by decide +kernel
  have wall : (write (.number (((filled 0).lastWall : Int) : ℚ))).length = 4 := by decide +kernel
  have version : (write (.number 1)).length = 1 := by decide +kernel
  have secret : (write (textValue (filled 0).secret)).length = 66 := by decide +kernel
  have operations : (write (.array ((filled n).operations.map Decision.value))).length = 2 + (n * 165 - 1) := by
    rw [array_length,filled,List.map_map,List.map_map]
    have each : ((fun item => (write item).length + 1) ∘ Decision.value) ∘ refusedCharge = fun _ => 165 := by
      funext k
      exact congrArg (· + 1) (refusedCharge_length k)
    rw [each]
    simp
  have total : (filled n).text.length = (write (filled n).value).length + 1 := by simp [Data.text]
  rw [total]
  unfold Data.value
  rw [object_length]
  have same : (filled n).accounts = (filled 0).accounts ∧ (filled n).identities = (filled 0).identities ∧
      (filled n).grants = (filled 0).grants ∧ (filled n).lastWall = (filled 0).lastWall ∧
      (filled n).secret = (filled 0).secret := ⟨rfl,rfl,rfl,rfl,rfl⟩
  simp only [List.map_cons,List.map_nil,List.sum_cons,List.sum_nil,operations,same,accounts,identities,grants,
    wall,version,secret,keys]
  omega
theorem filled_fits (few : n ≤ 32768) (some : 1 ≤ n) : (filled n).fits ↔ n ≤ 12705 := by
  have accepted : largeOptions.accepted := by decide
  unfold Data.fits maxBytes
  rw [utf8Bytes_length _ (sound_short accepted (filled_sound few)).1,filled_length some]
  omega
/-- A ledger of the largest operation capacity takes 12,706 charges, each of them
    answered, and every state before the last fits its store; the last state has passed
    every check, within every capacity, and the store refuses it for its size. -/
theorem outgrows : largeOptions.accepted ∧ (∀ n ≤ 12705, (filling n).data.fits) ∧ (filling 12706).up = true ∧
    (filling 12706).data.sound largeOptions ∧ ¬ (filling 12706).data.fits := by
  obtain ⟨data,up,_⟩ := filling_filled (n := 12706) (by omega)
  refine ⟨by decide,fun n few => ?_,up,?_,?_⟩
  · rw [(filling_filled (n := n) (by omega)).1]
    rcases Nat.eq_zero_or_pos n with rfl | some
    · have accepted : largeOptions.accepted := by decide
      unfold Data.fits maxBytes
      rw [utf8Bytes_length _ (sound_short accepted (filled_sound (by omega))).1]
      have short : (filled 0).text.length = 719 := by decide +kernel
      omega
    · exact (filled_fits (by omega) some).mpr few
  · rw [data]
    exact filled_sound (by omega)
  · rw [data,filled_fits (by omega) (by omega)]
    omega

/-! ### Capacities a store can hold -/

/-- The states that pass their checks all fit the store exactly when the widest rows at
    every capacity do. Then every state of every run of the ledger fits, across restarts
    and closings, and so does whatever its queue has in memory, in the file or in a write,
    for every interleaving of arrivals and writes: no write fails for size. A request there
    is no room for is refused as such, and one that is answered leaves no list over its
    capacity. -/
theorem store_never_full (world : World) (options : Options) (clock : world.countable) (accepted : options.accepted) :
    ((∀ data, Data.sound options data → data.fits) ↔ options.widest ≤ maxBytes) ∧
    (options.widest ≤ maxBytes →
      (∀ secret moment side steps, hex secret 64 = true → isSafeInteger moment = true → 0 ≤ moment →
        side.highestWall ≤ maxSafe →
        ((fresh secret moment side).run world options steps).data.fits) ∧
      ∀ file side capacity events, Data.sound options file →
        let q := DurableQueue.run (queue world options capacity) (DurableQueue.opened file side) events
        q.memory.fits ∧ q.file.fits ∧ ∀ working replaced held, q.phase = .writing working replaced held →
          working.fits) ∧
    (∀ data, Refuses world options data) ∧
    ∀ request data after answer s s', Roomy options data →
      Request.operation world options request data s = (.ok (answer,after),s') → Roomy options after := by
  refine ⟨widest_iff accepted,fun room => ⟨?_,?_⟩,refuses world options,
    fun request data after answer s s' roomy done => operation_roomy roomy done⟩
  · intro secret moment side steps digits safe low wall
    have start : Writable options (fresh secret moment side) := by
      refine ⟨⟨⟨digits,safe,low⟩,⟨?_,?_,?_,?_⟩,⟨List.nodup_nil,List.nodup_nil,List.nodup_nil,List.nodup_nil⟩,?_⟩,wall⟩
      · exact Nat.zero_le _
      · exact Nat.zero_le _
      · exact Nat.zero_le _
      · exact Nat.zero_le _
      · simp [fresh,emptyData]
    have kept :=
      run_invariant (I := Writable options) (fun _ step before => step_writable clock step before) steps start
    exact (widest_iff accepted).mpr room _ kept.sound
  · intro file side capacity events sound q
    have checked : Checked options q := queue_checked sound side events
    have fits := (widest_iff accepted).mpr room
    exact ⟨fits _ checked.memory,fits _ checked.file,fun working replaced held writing =>
      fits _ (checked.writing working replaced held writing)⟩
def defaultOptions : Options := ⟨100000000,120,10800,256,512,1024,8192⟩
theorem store_never_full_default :
    ((fresh (digits 64 0) 1000 ⟨0,fun _ => none,0,0,0,0⟩).run patientWorld defaultOptions (fillingSteps 3)).data.fits :=
  ((store_never_full patientWorld defaultOptions (fun _ _ same => by cases same; rfl) (by decide)).2.1 (by decide)).1 _
    _ _
    (fillingSteps 3) (by decide) (by decide) (by decide) (by decide)

end RelaySwarm.Ledger
