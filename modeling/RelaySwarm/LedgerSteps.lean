import RelaySwarm.Ledger

/-!
What each operation of the ledger does when it succeeds, one lemma for each, and
what the process remembers whether it succeeds or not (`Keeps`): the wall clock
does not go back, and no expiry appears but for a token drawn since.
-/
namespace RelaySwarm.Ledger
open Script Effect

variable {s s' : Side} {data : Data}
section
variable {world : World} {options : Options}

/-! ### The readings -/

@[simp] theorem time_ok {moment : Int} : time world s = (.ok moment,s') ↔
    world.now s.walls = some moment ∧ s.highestWall ≤ moment ∧
      s' = { s with walls := s.walls + 1, highestWall := moment } := by
  unfold time
  cases world.now s.walls with
  | none => simp
  | some t =>
    dsimp only
    split_ifs with back
    · simp only [Prod.mk.injEq,reduceCtorEq,false_and,Option.some.injEq,false_iff,not_and]
      rintro rfl ahead
      omega
    · simp only [Prod.mk.injEq,Except.ok.injEq,Option.some.injEq]
      constructor
      · rintro ⟨rfl,rfl⟩; exact ⟨rfl,by omega,rfl⟩
      · rintro ⟨rfl,_,rfl⟩; exact ⟨rfl,rfl⟩
@[simp] theorem monotonicNow_ok {mono : ℚ} : monotonicNow world s = (.ok mono,s') ↔
    world.monotonic s.monos = mono ∧ s' = { s with monos := s.monos + 1 } := by
  simp [monotonicNow,eq_comm]
@[simp] theorem randomToken_ok {token : String} : randomToken world s = (.ok token,s') ↔
    world.token s.tokens = token ∧ s' = { s with tokens := s.tokens + 1 } := by
  simp [randomToken,eq_comm]
@[simp] theorem randomId_ok {id : String} : randomId world s = (.ok id,s') ↔
    world.accountId s.ids = id ∧ s' = { s with ids := s.ids + 1 } := by
  simp [randomId,eq_comm]
@[simp] theorem expiryOf_ok {token : String} {e : Option Expiry} : expiryOf token s = (.ok e,s') ↔
    s.expiries token = e ∧ s' = s := by
  simp [expiryOf,eq_comm]

/-- What a process remembers only grows: the wall clock, and what it has drawn. An
    expiry is kept, forgotten, or belongs to a token drawn since, the spare ones
    apart. -/
structure Keeps (world : World) (spare : String → Prop) (s s' : Side) : Prop where
  wall : s.highestWall ≤ s'.highestWall
  tokens : s.tokens ≤ s'.tokens
  expiries : ∀ token, ¬ spare token → s'.expiries token = s.expiries token ∨ s'.expiries token = none ∨
    ∃ n, s.tokens ≤ n ∧ n < s'.tokens ∧ world.token n = token
/-- The computation keeps what the process remembers, but for the spare tokens. -/
abbrev KeptBut (world : World) (spare : String → Prop) {α : Type} (m : LedgerM α) : Prop :=
  Within (Keeps world spare) m
abbrev Kept (world : World) {α : Type} (m : LedgerM α) : Prop := KeptBut world (fun _ => False) m

section
variable {spare : String → Prop}

theorem Keeps.same (wall : s.highestWall ≤ s'.highestWall) (tokens : s.tokens ≤ s'.tokens)
    (expiries : s'.expiries = s.expiries) : Keeps world spare s s' :=
  ⟨wall,tokens,fun token _ => .inl (congrFun expiries token)⟩
theorem Keeps.refl (s : Side) : Keeps world spare s s := Keeps.same (le_refl _) (Nat.le_refl _) rfl
theorem Keeps.trans (a b c : Side) (first : Keeps world spare a b) (second : Keeps world spare b c) :
    Keeps world spare a c := by
  refine ⟨first.wall.trans second.wall,first.tokens.trans second.tokens,fun token held => ?_⟩
  rcases second.expiries token held with same | gone | ⟨n,low,high,drawn⟩
  · rcases first.expiries token held with same' | gone' | ⟨n,low,high,drawn⟩
    · exact .inl (same.trans same')
    · exact .inr (.inl (same.trans gone'))
    · exact .inr (.inr ⟨n,low,Nat.lt_of_lt_of_le high second.tokens,drawn⟩)
  · exact .inr (.inl gone)
  · exact .inr (.inr ⟨n,first.tokens.trans low,high,drawn⟩)

theorem time_kept : KeptBut world spare (time world) := by
  intro s
  unfold time
  split
  · exact Keeps.same (le_refl _) (Nat.le_refl _) rfl
  · split_ifs with back
    · exact Keeps.same (le_refl _) (Nat.le_refl _) rfl
    · exact Keeps.same (by simpa using back) (Nat.le_refl _) rfl
theorem monotonicNow_kept : KeptBut world spare (monotonicNow world) :=
  fun _ => Keeps.same (le_refl _) (Nat.le_refl _) rfl
theorem randomId_kept : KeptBut world spare (randomId world) := fun _ => Keeps.same (le_refl _) (Nat.le_refl _) rfl
theorem expiryOf_kept (token : String) : KeptBut world spare (expiryOf token) := fun s => Keeps.refl s
theorem setExpiry_kept {token : String} (expiry : Expiry) (allowed : spare token) :
    KeptBut world spare (setExpiry token expiry) := by
  intro s
  refine ⟨le_refl _,Nat.le_refl _,fun other held => .inl ?_⟩
  change (if other = token then _ else s.expiries other) = _
  rw [if_neg]
  rintro rfl
  exact held allowed
theorem keepExpiries_kept (live : List String) : KeptBut world spare (keepExpiries live) := by
  intro s
  refine ⟨le_refl _,Nat.le_refl _,fun token _ => ?_⟩
  unfold keepExpiries
  dsimp only
  split_ifs
  · exact .inl rfl
  · exact .inr (.inl rfl)
theorem pure_kept {α : Type} (a : α) : KeptBut world spare (pure a : LedgerM α) := Within.pure Keeps.refl a
theorem refuseIf_kept (c : Prop) [Decidable c] (e : Refusal) : KeptBut world spare (refuseIf c e : LedgerM PUnit) :=
  Within.refuseIf Keeps.refl c e
theorem require_kept {α : Type} (o : Option α) (e : Refusal) : KeptBut world spare (require o e : LedgerM α) :=
  Within.require Keeps.refl o e
theorem bind_kept {α β : Type} {m : LedgerM α} {f : α → LedgerM β} (first : KeptBut world spare m)
    (second : ∀ a, KeptBut world spare (f a)) : KeptBut world spare (m >>= f) := Within.bind Keeps.trans first second
theorem randomToken_kept {α : Type} {f : String → LedgerM α}
    (rest : ∀ token, KeptBut world (fun other => other = token) (f token)) : Kept world (randomToken world >>= f) := by
  intro s
  have kept := rest (world.token s.tokens) { s with tokens := s.tokens + 1 }
  refine ⟨kept.wall,(Nat.le_succ _).trans kept.tokens,fun token _ => ?_⟩
  by_cases own : token = world.token s.tokens
  · exact .inr (.inr ⟨s.tokens,Nat.le_refl _,Nat.lt_of_lt_of_le (Nat.lt_succ_self _) kept.tokens,own.symm⟩)
  · rcases kept.expiries token own with same | gone | ⟨n,low,high,drawn⟩
    · exact .inl same
    · exact .inr (.inl gone)
    · exact .inr (.inr ⟨n,(Nat.le_succ _).trans low,high,drawn⟩)
end

theorem grant_kept (data : Data) (token : String) : Kept world (grant world data token) := by
  unfold grant
  repeat' first
    | exact pure_kept _
    | exact expiryOf_kept _
    | exact monotonicNow_kept
    | exact time_kept
    | exact refuseIf_kept _ _
    | exact require_kept _ _
    | refine bind_kept ?_ fun _ => ?_
theorem snapshot_kept {spare : String → Prop} (data : Data) (account : String × Balance) :
    KeptBut world spare (snapshot data account) := bind_kept (require_kept _ _) fun _ => pure_kept _
theorem grantResponse_kept (data : Data) (value : Grant) (fresh : Bool) : Kept world (grantResponse data value fresh) :=
  bind_kept (require_kept _ _) fun _ => bind_kept (snapshot_kept _ _) fun _ => pure_kept _
theorem issue_kept (data : Data) (account : String × Balance) (request : Issue) :
    Kept world (issue world options data account request) := by
  refine bind_kept (refuseIf_kept _ _) fun _ => randomToken_kept fun token => bind_kept time_kept fun _ =>
    bind_kept monotonicNow_kept fun _ => bind_kept time_kept fun _ => bind_kept ?_ fun _ =>
    bind_kept (setExpiry_kept _ (show token = token from rfl)) fun _ => pure_kept _
  unfold delegationEnd
  split
  · exact bind_kept (expiryOf_kept _) fun _ => bind_kept (require_kept _ _) fun _ => pure_kept _
  · exact bind_kept time_kept fun _ => pure_kept _
theorem liveGrants_kept (grants : List Grant) : Kept world (liveGrants world grants) := by
  induction grants with
  | nil => exact pure_kept _
  | cons grant rest ih => exact bind_kept time_kept fun _ => bind_kept ih fun _ => pure_kept _
theorem prune_kept (data : Data) : Kept world (prune world data) :=
  bind_kept (liveGrants_kept _) fun _ => bind_kept (keepExpiries_kept _) fun _ => pure_kept _
theorem enrol_kept (data : Data) (value : Verified) : Kept world (enrol world options data value) := by
  refine bind_kept (bind_kept (refuseIf_kept _ _) fun _ => pure_kept _) fun id => ?_
  split
  · exact pure_kept _
  · exact bind_kept (refuseIf_kept _ _) fun _ => bind_kept randomId_kept fun _ => pure_kept _
theorem enrolAll_kept (values : List Verified) : ∀ data, Kept world (enrolAll world options data values) := by
  induction values with
  | nil => intro data; exact pure_kept _
  | cons value rest ih =>
    intro data
    exact bind_kept (enrol_kept data value) fun _ => bind_kept (ih _) fun _ => pure_kept _
theorem linkAccounts_kept (data : Data) (account : String × Balance) (otherId : String) :
    Kept world (linkAccounts data account otherId) := by
  refine bind_kept (require_kept _ _) fun _ => ?_
  split_ifs
  · exact pure_kept _
  · exact bind_kept (refuseIf_kept _ _) fun _ => pure_kept _
theorem adjustAccount_kept (data : Data) (records : List Identity) (request : Authorisation) :
    Kept world (adjustAccount data records request) := by
  refine bind_kept (require_kept _ _) fun _ => bind_kept (require_kept _ _) fun _ => bind_kept ?_ fun _ => pure_kept _
  unfold linkRecords
  split
  · exact linkAccounts_kept _ _ _
  · exact pure_kept _
theorem revokeWhere_kept (data : Data) (account : String) (selected : Grant → Bool) :
    Kept world (revokeWhere data account selected) := bind_kept (refuseIf_kept _ _) fun _ => pure_kept _
theorem checkAuthorisation_kept (identities : List Verified) (request : Authorisation) :
    Kept world (checkAuthorisation world options identities request) := by
  unfold checkAuthorisation
  repeat' first
    | exact time_kept
    | exact refuseIf_kept _ _
    | refine bind_kept ?_ fun _ => ?_
theorem operation_kept (request : Request) (data : Data) : Kept world (request.operation world options data) := by
  cases request with
  | authorize identities request =>
    refine bind_kept ?_ fun _ => pure_kept _
    refine bind_kept (checkAuthorisation_kept _ _) fun _ => bind_kept (enrolAll_kept _ _) fun _ =>
      bind_kept (adjustAccount_kept _ _ _) fun _ => bind_kept ?_ fun _ => bind_kept (issue_kept _ _ _) fun _ =>
      bind_kept (grantResponse_kept _ _ _) fun _ => pure_kept _
    unfold revokeEarlier
    split_ifs
    · exact revokeWhere_kept _ _ _
    · exact pure_kept _
  | inspectGrant token =>
    exact bind_kept (bind_kept (grant_kept _ _) fun _ => bind_kept (snapshot_kept _ _) fun _ => pure_kept _)
      fun _ => pure_kept _
  | reserve token operationId bytes =>
    refine bind_kept ?_ fun _ => pure_kept _
    exact bind_kept (grant_kept _ _) fun _ => bind_kept (refuseIf_kept _ _) fun _ =>
      bind_kept (refuseIf_kept _ _) fun _ =>
      bind_kept (refuseIf_kept _ _) fun _ => bind_kept (snapshot_kept _ _) fun _ => pure_kept _
  | renew token operationId websiteIdentity =>
    refine bind_kept ?_ fun _ => pure_kept _
    refine bind_kept (grant_kept _ _) fun _ => bind_kept (refuseIf_kept _ _) fun _ => ?_
    split
    · exact bind_kept (refuseIf_kept _ _) fun _ => bind_kept (grant_kept _ _) fun _ =>
        bind_kept (grantResponse_kept _ _ _) fun _ => pure_kept _
    · exact bind_kept (issue_kept _ _ _) fun _ => bind_kept (grantResponse_kept _ _ _) fun _ => pure_kept _
  | revokeGrant token =>
    exact bind_kept (bind_kept (grant_kept _ _) fun _ => revokeWhere_kept _ _ _) fun _ => pure_kept _
theorem validate_kept (data : Data) : Kept world (validate world options data) :=
  bind_kept (refuseIf_kept _ _) fun _ => bind_kept time_kept fun _ => refuseIf_kept _ _
theorem apply_kept (entry : Entry) (working : Data) : Kept world (apply world options entry working) := by
  refine bind_kept (refuseIf_kept _ _) fun _ => bind_kept time_kept fun _ => bind_kept (refuseIf_kept _ _) fun _ =>
    bind_kept ?_ fun _ => bind_kept (operation_kept _ _) fun _ => bind_kept (refuseIf_kept _ _) fun _ => ?_
  · unfold candidate
    split_ifs
    · exact prune_kept _
    · exact pure_kept _
  · unfold commit
    split_ifs
    · exact bind_kept time_kept fun _ => bind_kept (validate_kept _) fun _ => pure_kept _
    · exact pure_kept _

/-! ### What succeeds -/

/-- A token that may be used: its grant and account, under both clocks. -/
structure Usable (world : World) (data : Data) (token : String) (s : Side)
    (found : Grant × String × Balance) : Prop where
  seen : data.grants.find? (·.token = token) = some found.1
  unrevoked : found.1.revoked = false
  account : canonical data found.1.accountId = some found.2
  revision : found.2.2.revision = found.1.epoch
  wall : s.highestWall < found.1.delegationExpiresAt
  expiry : ∃ expiry, s.expiries token = some expiry ∧ world.monotonic s.monos < expiry.delegation
theorem Usable.token {token : String} {found : Grant × String × Balance}
    (usable : Usable world data token s found) : found.1.token = token := by
  simpa using List.find?_some usable.seen
theorem Usable.member {token : String} {found : Grant × String × Balance}
    (usable : Usable world data token s found) : found.1 ∈ data.grants := List.mem_of_find?_eq_some usable.seen

theorem grant_ok {token : String} {found : Grant × String × Balance}
    (granted : grant world data token s = (.ok found,s')) : Usable world data token s found ∧
      s'.expiries = s.expiries ∧ s'.tokens = s.tokens ∧ s'.monos = s.monos + 1 ∧ s.highestWall ≤ s'.highestWall := by
  simp only [grant,bind_ok,expiryOf_ok,monotonicNow_ok,require_ok,refuseIf_ok,time_ok,pure_ok] at granted
  obtain ⟨_,_,⟨rfl,rfl⟩,_,_,⟨rfl,rfl⟩,value,_,⟨seen,rfl⟩,_,_,⟨live,rfl⟩,at₁,_,⟨_,wall₁,rfl⟩,_,_,⟨_,rfl⟩,at₂,_,
    ⟨_,wall₂,rfl⟩,_,_,⟨early,rfl⟩,expiry,_,⟨known,rfl⟩,_,_,⟨young,rfl⟩,account,_,⟨owner,rfl⟩,_,_,⟨epoch,rfl⟩,rfl,rfl⟩ :=
    granted
  dsimp only at wall₂ wall₁ early
  refine ⟨⟨seen,by simpa using live,owner,not_not.mp epoch,by dsimp only; omega,expiry,known,?_⟩,rfl,rfl,rfl,by
    dsimp only; omega⟩
  exact not_le.mp (not_or.mp young).2

theorem liveGrants_ok (grants : List Grant) : ∀ {s s' : Side} {kept : List Grant},
    liveGrants world grants s = (.ok kept,s') → kept.Sublist grants ∧ s'.expiries = s.expiries ∧ s'.tokens = s.tokens ∧
      s'.monos = s.monos ∧ s.highestWall ≤ s'.highestWall := by
  induction grants with
  | nil =>
    intro s s' kept done
    simp only [liveGrants,pure_ok] at done
    obtain ⟨rfl,rfl⟩ := done
    exact ⟨List.Sublist.refl _,rfl,rfl,rfl,le_refl _⟩
  | cons grant rest ih =>
    intro s s' kept done
    simp only [liveGrants,bind_ok,time_ok,pure_ok] at done
    obtain ⟨here,_,⟨_,wall,rfl⟩,later,_,rest',rfl,rfl⟩ := done
    obtain ⟨sub,expiries,tokens,monos,more⟩ := ih rest'
    refine ⟨?_,expiries,tokens,monos,le_trans wall more⟩
    split_ifs
    · exact sub.cons_cons grant
    · exact sub.cons grant
/-- Pruning drops grants with their operations and nothing else. -/
structure Pruned (data pruned : Data) : Prop where
  secret : pruned.secret = data.secret
  accounts : pruned.accounts = data.accounts
  identities : pruned.identities = data.identities
  grants : pruned.grants.Sublist data.grants
  operations : pruned.operations =
    data.operations.filter (fun decision => decision.grant ∈ pruned.grants.map (·.token))
theorem prune_ok {data pruned : Data} (done : prune world data s = (.ok pruned,s')) :
    Pruned data pruned ∧ s'.tokens = s.tokens ∧ s'.monos = s.monos ∧ s.highestWall ≤ s'.highestWall ∧
      ∀ token, s'.expiries token = s.expiries token ∨ s'.expiries token = none := by
  simp only [prune,bind_ok,pure_ok] at done
  obtain ⟨kept,s₁,live,_,s₂,forgot,rfl,rfl⟩ := done
  obtain ⟨sub,expiries,tokens,monos,wall⟩ := liveGrants_ok _ live
  simp only [keepExpiries,Prod.mk.injEq,true_and] at forgot
  subst forgot
  refine ⟨⟨rfl,rfl,rfl,sub,rfl⟩,tokens,monos,wall,fun token => ?_⟩
  dsimp only
  split_ifs
  · exact .inl (congrFun expiries token)
  · exact .inr rfl

/-- A new grant on an account: its token is drawn, and its delegation ends with that
    of the grant it renews. -/
structure Issued (world : World) (data : Data) (account : String × Balance) (request : Issue) (s : Side)
    (value : Grant) (issued : Data) (s' : Side) : Prop where
  shape : value = { value with
    token := world.token s.tokens, accountId := account.1, pagePubkey := request.pagePubkey, methods := request.methods
    websiteIdentity := request.websiteIdentity, epoch := account.2.revision
    delegationExpiresAt := request.delegationExpiresAt, revoked := false, renewal := none }
  issued : issued = { data with grants := data.grants ++ [value] }
  tokens : s'.tokens = s.tokens + 1
  expiries : ∃ grantEnd delegation, s'.expiries = (fun other =>
      if other = value.token then some ⟨grantEnd,delegation⟩ else s.expiries other) ∧
    ∀ prior, request.prior = some prior → ∃ expiry, s.expiries prior = some expiry ∧ delegation = expiry.delegation
theorem issue_ok {data issued : Data} {account : String × Balance} {request : Issue} {value : Grant}
    (done : issue world options data account request s = (.ok (value,issued),s')) :
    Issued world data account request s value issued s' := by
  simp only [issue,bind_ok,refuseIf_ok,randomToken_ok,time_ok,monotonicNow_ok,pure_ok] at done
  obtain ⟨_,_,⟨_,rfl⟩,_,_,⟨rfl,rfl⟩,at₁,_,⟨_,_,rfl⟩,mono,_,⟨rfl,rfl⟩,at₂,_,⟨_,_,rfl⟩,delegation,s₁,ended,_,s₂,set,
    same,rfl⟩ :=
    done
  cases same
  have kept : s₁.expiries = s.expiries ∧ s₁.tokens = s.tokens + 1 ∧ ∀ prior, request.prior = some prior →
      ∃ expiry, s.expiries prior = some expiry ∧ delegation = expiry.delegation := by
    unfold delegationEnd at ended
    cases prior : request.prior with
    | none =>
      simp only [prior,bind_ok,time_ok,pure_ok] at ended
      obtain ⟨_,_,⟨_,_,rfl⟩,_,rfl⟩ := ended
      exact ⟨rfl,rfl,by simp⟩
    | some token =>
      simp only [prior,bind_ok,expiryOf_ok,require_ok,pure_ok] at ended
      obtain ⟨_,_,⟨rfl,rfl⟩,expiry,_,⟨known,rfl⟩,rfl,rfl⟩ := ended
      exact ⟨rfl,rfl,fun other same => by cases same; exact ⟨expiry,known,rfl⟩⟩
  obtain ⟨expiries,tokens,prior⟩ := kept
  simp only [setExpiry,Prod.mk.injEq,true_and] at set
  subst set
  exact ⟨rfl,rfl,tokens,_,delegation,by rw [expiries],prior⟩

theorem snapshot_ok {account : String × Balance} {snap : Snapshot}
    (done : snapshot data account s = (.ok snap,s')) : s' = s ∧ snap.limit = account.2.limit ∧
      snap.spent = account.2.spent := by
  simp only [snapshot,bind_ok,require_ok,pure_ok] at done
  obtain ⟨_,_,⟨_,rfl⟩,rfl,rfl⟩ := done
  exact ⟨rfl,rfl,rfl⟩
theorem grantResponse_ok {value : Grant} {fresh : Bool} {response : GrantResponse}
    (done : grantResponse data value fresh s = (.ok response,s')) : s' = s ∧ response.grant = value.token ∧
      response.delegationExpiresAt = value.delegationExpiresAt := by
  simp only [grantResponse,bind_ok,require_ok,pure_ok] at done
  obtain ⟨account,_,⟨_,rfl⟩,snap,s₁,taken,rfl,rfl⟩ := done
  exact ⟨(snapshot_ok taken).1,rfl,rfl⟩

end
end RelaySwarm.Ledger
