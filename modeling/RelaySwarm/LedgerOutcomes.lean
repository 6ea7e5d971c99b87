import RelaySwarm.EffectRefusals
import RelaySwarm.LedgerCapacity

/-!
What a request on a valid ledger can come to. It is refused for one of its own reasons, or
leaves a valid state (`outcome_own`); an invalid state is what the commit refuses, and only
when an account has counted up to the largest safe integer.
-/
namespace RelaySwarm.Ledger
open Effect Script

variable {data : Data} {account : String × Balance} {s' : Side}
section
variable {world : World} {options : Options}

/-! ### Accounts that resolve -/

/-- Every account resolves, and identities and grants name accounts. -/
structure Resolving (data : Data) : Prop where
  accounts : ∀ id ∈ data.accounts.map (·.id), ∃ owner, Resolves data.accounts id owner
  identities : ∀ identity ∈ data.identities, identity.accountId ∈ data.accounts.map (·.id)
  grants : ∀ grant ∈ data.grants, grant.accountId ∈ data.accounts.map (·.id)

theorem any_known {id : String} {accounts : List Account} (found : accounts.any (·.id = id) = true) :
    id ∈ accounts.map (·.id) := by
  obtain ⟨account,member,same⟩ := List.any_eq_true.mp found
  exact List.mem_map.mpr ⟨account,member,of_decide_eq_true same⟩
theorem valid_resolving (valid : data.valid options) : Resolving data where
  accounts id member := by
    obtain ⟨owner,found⟩ := valid_resolves valid member
    exact ⟨owner,canonical_iff.mp found⟩
  identities identity member := by
    have checked := valid.2.2.2.1 identity member
    simp only [identityValid,Bool.and_eq_true] at checked
    exact any_known checked.2
  grants grant member := by
    have checked := valid.2.2.2.2.1 grant member
    simp only [grantValid,Bool.and_eq_true] at checked
    exact any_known checked.1.1.1.1.1.1.2
theorem Resolving.found (resolving : Resolving data) {id : String} (known : id ∈ data.accounts.map (·.id)) :
    ∃ owner, canonical data id = some owner := by
  obtain ⟨owner,resolves⟩ := resolving.accounts id known
  exact ⟨owner,canonical_iff.mpr resolves⟩
theorem Resolving.follow {data data' : Data} {f : String → String} (resolving : Resolving data)
    (ids : data'.accounts.map (·.id) = data.accounts.map (·.id)) (follows : Follows data.accounts data'.accounts f)
    (identities : data'.identities = data.identities)
    (grants : ∀ grant ∈ data'.grants, grant.accountId ∈ data.accounts.map (·.id)) :
    Resolving data' where
  accounts id member := by
    rw [ids] at member
    obtain ⟨owner,resolves⟩ := resolving.accounts id member
    obtain ⟨owner',resolves',_⟩ := follows id owner resolves
    exact ⟨owner',resolves'⟩
  identities identity member := by
    rw [identities] at member
    rw [ids]
    exact resolving.identities identity member
  grants grant member := by
    rw [ids]
    exact grants grant member
theorem Resolving.grants_only {data data' : Data} (resolving : Resolving data)
    (accounts : data'.accounts = data.accounts)
    (identities : data'.identities = data.identities)
    (grants : ∀ grant ∈ data'.grants, grant.accountId ∈ data.accounts.map (·.id)) :
    Resolving data' :=
  resolving.follow (by rw [accounts]) (by rw [accounts]; exact Follows.refl _) identities grants
theorem pruned_resolving {data pruned : Data} (resolving : Resolving data) (done : Pruned data pruned) :
    Resolving pruned :=
  resolving.grants_only done.accounts done.identities (fun grant member =>
    resolving.grants grant (done.grants.subset member))
theorem setHolding_resolving {owner : String} {b : Balance} (resolving : Resolving data)
    (before : held data.accounts owner = some (.balance b))
    (b' : Balance) : Resolving (data.setHolding owner (.balance b')) :=
  resolving.follow (replaceHolding_ids _ _ _) (Follows.replace before b') rfl resolving.grants
theorem linked_resolving {target : Option (String × Balance)} {linked : (String × Balance) × Data}
    (resolving : Resolving data) (own : held data.accounts account.1 = some (.balance account.2))
    (link : Linked data account target linked) :
    Resolving linked.2 ∧ held linked.2.accounts linked.1.1 = some (.balance linked.1.2) := by
  cases link with
  | none => exact ⟨resolving,own⟩
  | alone same =>
    refine ⟨setHolding_resolving resolving own _,?_⟩
    unfold Data.setHolding
    rw [held_replace (held_known own),if_pos rfl]
  | @takes other apart theirs =>
    refine ⟨resolving.follow ?_ (Follows.linked apart own theirs _) rfl resolving.grants,?_⟩
    · unfold Data.setHolding
      rw [replaceHolding_ids,replaceHolding_ids]
    · unfold Data.setHolding
      rw [held_replace (by rw [replaceHolding_ids]; exact held_known theirs),if_neg apart.symm,
        held_replace (held_known own),if_pos rfl]
theorem applySettings_resolving {linked : (String × Balance) × Data} (resolving : Resolving linked.2)
    (own : held linked.2.accounts linked.1.1 = some (.balance linked.1.2)) (settings : Option Settings) :
    Resolving (applySettings linked settings).2 ∧
    held (applySettings linked settings).2.accounts (applySettings linked settings).1.1 =
      some (.balance (applySettings linked settings).1.2) := by
  unfold applySettings
  cases settings with
  | none => exact ⟨resolving,own⟩
  | some settings =>
    refine ⟨setHolding_resolving resolving own _,?_⟩
    unfold Data.setHolding
    dsimp only
    rw [held_replace (held_known own),if_pos rfl]
theorem enrolNew_resolving {data enrolled : Data} {id method : String} {record : Identity} {s s' : Side}
    (resolving : Resolving data)
    (done : enrolNew world options data id method s = (.ok (record,enrolled),s')) : Resolving enrolled := by
  simp only [enrolNew,bind_ok,refuseIf_ok,randomId_ok,pure_ok,Prod.mk.injEq] at done
  obtain ⟨_,_,⟨_,rfl⟩,accountId,_,⟨_,rfl⟩,⟨rfl,rfl⟩,rfl⟩ := done
  constructor
  · intro other member
    dsimp only
    by_cases old : other ∈ data.accounts.map (·.id)
    · obtain ⟨owner,resolves⟩ := resolving.accounts other old
      exact ⟨owner,resolves.append⟩
    · have new : other = accountId := by
        rw [List.map_append,List.mem_append] at member
        rcases member with before | last
        · exact absurd before old
        · exact List.mem_singleton.mp last
      have absent : data.accounts.find? (·.id = other) = none := by
        rw [List.find?_eq_none]
        intro account inside same
        exact old (List.mem_map.mpr ⟨account,inside,of_decide_eq_true same⟩)
      refine ⟨(other,⟨options.defaultLimit,0,1,1⟩),.here ?_⟩
      unfold held
      rw [List.find?_append,absent,new]
      simp
  · intro identity member
    rw [List.map_append]
    rcases List.mem_append.mp member with old | new
    · exact List.mem_append_left _ (resolving.identities identity old)
    · rw [List.mem_singleton.mp new]
      exact List.mem_append_right _ (List.mem_singleton_self _)
  · intro grant member
    rw [List.map_append]
    exact List.mem_append_left _ (resolving.grants grant member)
theorem enrol_resolving {data enrolled : Data} {value : Verified} {record : Identity} {s s' : Side}
    (resolving : Resolving data)
    (done : enrol world options data value s = (.ok (record,enrolled),s')) : Resolving enrolled := by
  simp only [enrol,identityId,bind_ok,refuseIf_ok,pure_ok] at done
  obtain ⟨_,_,⟨_,_,⟨_,rfl⟩,rfl,rfl⟩,rest⟩ := done
  cases known : data.identities.find? (fun identity => identity.id = world.digest data.secret value) with
  | some found =>
    simp only [known,pure_ok,Prod.mk.injEq] at rest
    obtain ⟨⟨rfl,rfl⟩,rfl⟩ := rest
    exact resolving
  | none =>
    simp only [known] at rest
    exact enrolNew_resolving resolving rest
theorem enrolAll_resolving (values : List Verified) : ∀ {data enrolled : Data} {records : List Identity} {s s' : Side},
    Resolving data → enrolAll world options data values s = (.ok (records,enrolled),s') → Resolving enrolled := by
  induction values with
  | nil =>
    intro data enrolled records s s' resolving done
    simp only [enrolAll,pure_ok,Prod.mk.injEq] at done
    obtain ⟨⟨rfl,rfl⟩,rfl⟩ := done
    exact resolving
  | cons value rest ih =>
    intro data enrolled records s s' resolving done
    simp only [enrolAll,bind_ok,pure_ok,Prod.mk.injEq] at done
    obtain ⟨first,_,one,later,_,others,⟨rfl,rfl⟩,rfl⟩ := done
    exact ih (enrol_resolving resolving one) others
theorem revokedWhere_resolving (resolving : Resolving data) (account : String) (selected : Grant → Bool) :
    Resolving (revokedWhere data account selected) := by
  refine resolving.grants_only rfl rfl ?_
  intro grant member
  obtain ⟨old,inside,rfl⟩ := List.mem_map.mp member
  split <;> exact resolving.grants old inside
theorem issued_resolving {data issued : Data} {request : Issue} {s s' : Side} {value : Grant}
    (resolving : Resolving data) (known : account.1 ∈ data.accounts.map (·.id))
    (done : Issued world data account request s value issued s') : Resolving issued ∧
      value.accountId ∈ issued.accounts.map (·.id) := by
  have own : value.accountId = account.1 := by rw [done.shape]
  rw [done.issued]
  refine ⟨resolving.grants_only rfl rfl ?_,by rw [own]; exact known⟩
  intro grant member
  rcases List.mem_append.mp member with old | new
  · exact resolving.grants grant old
  · rw [List.mem_singleton.mp new,own]
    exact known
theorem setRenewal_mem {token : String} {renewal : Renewal} {grants : List Grant} {grant : Grant}
    (member : grant ∈ setRenewal token renewal grants) : grant ∈ grants ∨
      ∃ old ∈ grants, grant = { old with renewal := some renewal } := by
  induction grants with
  | nil => cases member
  | cons first rest ih =>
    unfold setRenewal at member
    split at member
    · rcases List.mem_cons.mp member with rfl | later
      · exact .inr ⟨first,List.mem_cons_self,rfl⟩
      · exact .inl (List.mem_cons_of_mem _ later)
    · rcases List.mem_cons.mp member with rfl | later
      · exact .inl List.mem_cons_self
      · rcases ih later with old | ⟨old,inside,same⟩
        · exact .inl (List.mem_cons_of_mem _ old)
        · exact .inr ⟨old,List.mem_cons_of_mem _ inside,same⟩
theorem renewed_resolving (resolving : Resolving data) (token : String) (renewal : Renewal) :
    Resolving { data with grants := setRenewal token renewal data.grants } := by
  refine resolving.grants_only rfl rfl ?_
  intro grant member
  rcases setRenewal_mem member with old | ⟨old,inside,rfl⟩
  · exact resolving.grants grant old
  · exact resolving.grants old inside

/-! ### Reasons -/

def clockUnavailable : Refusal := ⟨"account-clock-unavailable",503⟩
/-- What any request may be refused for, before and after its own checks. -/
def commonRefusals : List Refusal := [operationCancelled,clockUnavailable]
/-- What the checks of a request may refuse it for. -/
def Request.refusals : Request → List Refusal
  | .authorize _ _ => [authorisationInvalid,⟨"account-identity-unavailable",403⟩,⟨"account-capacity",429⟩,
      ⟨"account-spend-overflow",409⟩,⟨"account-grant-capacity",429⟩]
  | .inspectGrant _ => [grantUnavailable]
  | .reserve _ _ _ => [grantUnavailable,⟨"account-reservation-invalid",400⟩,⟨"account-operation-conflict",409⟩,
      ⟨"account-operation-capacity",429⟩]
  | .renew _ _ _ =>
    [grantUnavailable,⟨"account-renewal-invalid",403⟩,⟨"account-renewal-conflict",409⟩,⟨"account-grant-capacity",429⟩]
  | .revokeGrant _ => [grantUnavailable]

variable {reasons : Refusal → Prop} {s : Side} {data : Data}

theorem time_as (clock : reasons clockUnavailable) : RefusedAs reasons (time world) s := by
  intro e s' refused
  unfold time at refused
  split at refused
  · cases refused
    exact clock
  · split at refused
    · cases refused
      exact clock
    · cases refused
theorem grant_as (clock : reasons clockUnavailable) (unavailable : reasons grantUnavailable)
    (resolving : Resolving data) (token : String) :
    RefusedAs reasons (grant world data token) s := by
  refine bind_as (answers_as rfl) fun expiry _ _ => ?_
  refine bind_as (answers_as rfl) fun mono _ _ => ?_
  refine bind_as (require_as fun _ => unavailable) fun value _ found => ?_
  refine bind_as (refuseIf_as fun _ => unavailable) fun _ _ _ => ?_
  refine bind_as (time_as clock) fun _ _ _ => ?_
  refine bind_as (refuseIf_as fun _ => unavailable) fun _ _ _ => ?_
  refine bind_as (time_as clock) fun _ _ _ => ?_
  refine bind_as (refuseIf_as fun _ => unavailable) fun _ _ _ => ?_
  refine bind_as (require_as fun _ => unavailable) fun _ _ _ => ?_
  refine bind_as (refuseIf_as fun _ => unavailable) fun _ _ _ => ?_
  refine bind_as (require_as fun lost => ?_) fun _ _ _ => ?_
  · have member := List.mem_of_find?_eq_some (require_ok.mp found).1
    obtain ⟨owner,known⟩ := resolving.found (resolving.grants value member)
    rw [known] at lost
    cases lost
  · exact bind_as (refuseIf_as fun _ => unavailable) fun _ _ _ => pure_as _
theorem linkedMethods_some (resolving : Resolving data) (account : String) : linkedMethods data account ≠ none := by
  have owners : ∀ identities : List Identity, (∀ identity ∈ identities, identity.accountId ∈ data.accounts.map (·.id)) →
      ∃ owners, identities.mapM (fun identity => (canonical data identity.accountId).map
        (fun owner => (identity.method,owner.1))) = some owners := by
    intro identities
    induction identities with
    | nil => exact fun _ => ⟨[],rfl⟩
    | cons identity rest ih =>
      intro known
      obtain ⟨owner,found⟩ := resolving.found (known identity List.mem_cons_self)
      obtain ⟨later,all⟩ := ih (fun other member => known other (List.mem_cons_of_mem _ member))
      refine ⟨(identity.method,owner.1) :: later,?_⟩
      rw [List.mapM_cons,found,all]
      rfl
  obtain ⟨all,found⟩ := owners data.identities resolving.identities
  unfold linkedMethods
  rw [found]
  exact Option.some_ne_none _
theorem snapshot_as (resolving : Resolving data) (account : String × Balance) :
    RefusedAs reasons (snapshot data account) s :=
  bind_as (require_as fun lost => absurd lost (linkedMethods_some resolving _)) fun _ _ _ => pure_as _
theorem grantResponse_as (resolving : Resolving data) {value : Grant}
    (known : value.accountId ∈ data.accounts.map (·.id)) (fresh : Bool) :
    RefusedAs reasons (grantResponse data value fresh) s := by
  refine bind_as (require_as fun lost => ?_) fun _ _ _ => bind_as (snapshot_as resolving _) fun _ _ _ => pure_as _
  obtain ⟨owner,found⟩ := resolving.found known
  rw [found] at lost
  cases lost
theorem issue_as (clock : reasons clockUnavailable) (full : reasons ⟨"account-grant-capacity",429⟩)
    {request : Issue} (prior : ∀ token, request.prior = some token → s.expiries token ≠ none) :
    RefusedAs reasons (issue world options data account request) s := by
  refine bind_as (refuseIf_as fun _ => full) fun _ _ checked => ?_
  refine bind_as (answers_as rfl) fun token _ drawn => ?_
  refine bind_as (time_as clock) fun _ _ read => ?_
  refine bind_as (answers_as rfl) fun mono _ mono' => ?_
  refine bind_as (time_as clock) fun _ _ again => ?_
  simp only [refuseIf_ok,randomToken_ok,time_ok,monotonicNow_ok] at checked drawn read mono' again
  obtain ⟨_,rfl⟩ := checked
  obtain ⟨_,rfl⟩ := drawn
  obtain ⟨_,_,rfl⟩ := read
  obtain ⟨_,rfl⟩ := mono'
  obtain ⟨_,_,rfl⟩ := again
  refine bind_as ?_ fun _ _ _ => bind_as (answers_as rfl) fun _ _ _ => pure_as _
  unfold delegationEnd
  cases earlier : request.prior with
  | none => exact bind_as (time_as clock) fun _ _ _ => pure_as _
  | some token =>
    refine bind_as (answers_as rfl) fun expiry _ known => ?_
    refine bind_as (require_as fun lost => ?_) fun _ _ _ => pure_as _
    exact absurd ((expiryOf_ok.mp known).1.trans lost) (prior token earlier)
theorem revokeWhere_as (resolving : Resolving data) (account : String) (selected : Grant → Bool) :
    RefusedAs reasons (revokeWhere data account selected) s := by
  refine bind_as (refuseIf_as fun lost => absurd ?_ lost) fun _ _ _ => pure_as _
  intro grant member
  obtain ⟨owner,found⟩ := resolving.found (resolving.grants grant member)
  exact Option.isSome_of_eq_some found
theorem liveGrants_as (clock : reasons clockUnavailable) (grants : List Grant) :
    ∀ {s : Side}, RefusedAs reasons (liveGrants world grants) s := by
  induction grants with
  | nil => exact pure_as _
  | cons grant rest ih => exact bind_as (time_as clock) fun _ _ _ => bind_as ih fun _ _ _ => pure_as _
theorem prune_as (clock : reasons clockUnavailable) : RefusedAs reasons (prune world data) s :=
  bind_as (liveGrants_as clock _) fun _ _ _ => bind_as (answers_as rfl) fun _ _ _ => pure_as _
theorem checkAuthorisation_as (clock : reasons clockUnavailable) (invalid : reasons authorisationInvalid)
    (identities : List Verified)
    (request : Authorisation) : RefusedAs reasons (checkAuthorisation world options identities request) s := by
  refine bind_as (refuseIf_as fun _ => invalid) fun _ _ _ => bind_as (time_as clock) fun _ _ _ => ?_
  refine bind_as (refuseIf_as fun _ => invalid) fun _ _ _ => bind_as (time_as clock) fun _ _ _ => ?_
  exact bind_as (refuseIf_as fun _ => invalid) fun _ _ _ => bind_as (time_as clock) fun _ _ _ =>
    refuseIf_as fun _ => invalid
theorem enrolAll_as (unavailable : reasons ⟨"account-identity-unavailable",403⟩)
    (full : reasons ⟨"account-capacity",429⟩)
    (values : List Verified) : ∀ {data : Data}
    {s : Side}, RefusedAs reasons (enrolAll world options data values) s := by
  induction values with
  | nil => exact pure_as _
  | cons value rest ih =>
    intro data s
    refine bind_as ?_ fun _ _ _ => bind_as ih fun _ _ _ => pure_as _
    refine bind_as (bind_as (refuseIf_as fun _ => unavailable) fun _ _ _ => pure_as _) fun id _ _ => ?_
    split
    · exact pure_as _
    · exact bind_as (refuseIf_as fun _ => full) fun _ _ _ => bind_as (answers_as rfl) fun _ _ _ => pure_as _
theorem adjustAccount_as (overflow : reasons ⟨"account-spend-overflow",409⟩) (resolving : Resolving data)
    {records : List Identity}
    (some : records ≠ []) (known : ∀ record ∈ records, record ∈ data.identities) (request : Authorisation) :
    RefusedAs reasons (adjustAccount data records request) s := by
  have resolves : ∀ {record : Identity}, record ∈ records → canonical data record.accountId ≠ none := by
    intro record member lost
    obtain ⟨owner,found⟩ := resolving.found (resolving.identities record (known record member))
    rw [found] at lost
    cases lost
  refine bind_as (require_as fun empty => ?_) fun first _ head => ?_
  · exact absurd (List.head?_eq_none_iff.mp empty) some
  · have member := List.mem_of_head? (require_ok.mp head).1
    refine bind_as (require_as fun lost => absurd lost (resolves member)) fun account _ _ =>
      bind_as ?_ fun _ _ _ => pure_as _
    unfold linkRecords
    split
    · rename_i second _ found
      refine bind_as (require_as fun lost => absurd lost (resolves (List.mem_of_getElem? found))) fun other _ _ => ?_
      split
      · exact pure_as _
      · exact bind_as (refuseIf_as fun _ => overflow) fun _ _ _ => pure_as _
    · exact pure_as _

/-! ### Operations -/

theorem checkAuthorisation_some {identities : List Verified} {request : Authorisation} {done : PUnit}
    (checked : checkAuthorisation world options identities request s = (.ok done,s')) : identities ≠ [] := by
  simp only [checkAuthorisation,bind_ok,refuseIf_ok] at checked
  obtain ⟨_,_,⟨valid,_⟩,_⟩ := checked
  obtain ⟨_,methods,length,_,_⟩ := not_not.mp valid
  rintro rfl
  have empty : request.methods = [] := List.length_eq_zero_iff.mp length.symm
  rw [empty] at methods
  exact absurd methods (by decide)
theorem adjustAccount_resolving {records : List Identity} {request : Authorisation}
    {adjusted : (String × Balance) × Data}
    (resolving : Resolving data) (pair : request.link = true → 2 ≤ records.length)
    (done : adjustAccount data records request s = (.ok adjusted,s')) : Resolving adjusted.2 ∧
    held adjusted.2.accounts adjusted.1.1 = some (.balance adjusted.1.2) ∧ adjusted.2.grants = data.grants := by
  simp only [adjustAccount,bind_ok,require_ok,pure_ok] at done
  obtain ⟨first,_,⟨_,rfl⟩,account,_,⟨found,rfl⟩,linked,_,linking,rfl,rfl⟩ := done
  obtain ⟨_,_,link⟩ := linkRecords_ok pair linking
  have grants : linked.2.grants = data.grants := by
    generalize linkedTo data records request.link = target at link
    cases link <;> rfl
  obtain ⟨resolving',own⟩ := linked_resolving resolving (canonical_iff.mp found).balance link
  obtain ⟨after,own'⟩ := applySettings_resolving resolving' own request.settings
  refine ⟨after,own',?_⟩
  unfold applySettings
  split <;> exact grants
theorem revokeEarlier_resolving {revoked : Data} {account : String} {request : Authorisation}
    (resolving : Resolving data)
    (done : revokeEarlier data account request s = (.ok revoked,s')) : Resolving revoked ∧
      revoked.accounts = data.accounts := by
  obtain ⟨_,rfl,_⟩ := revokeEarlier_ok done
  split
  · exact ⟨revokedWhere_resolving resolving _ _,rfl⟩
  · exact ⟨resolving,rfl⟩
theorem authorize_as {identities : List Verified} {request : Authorisation}
    (fits : ∀ refusal ∈ commonRefusals ++ (Request.authorize identities request).refusals, reasons refusal)
    (resolving : Resolving data) :
    RefusedAs reasons (authorize world options identities request data) s := by
  have clock : reasons clockUnavailable := fits _ (by simp [commonRefusals])
  refine bind_as (checkAuthorisation_as clock (fits _ (by simp [Request.refusals])) identities request) fun _ _
    checked => ?_
  have some := checkAuthorisation_some checked
  obtain ⟨pair,_,_⟩ := checkAuthorisation_ok checked
  refine bind_as (enrolAll_as (fits _ (by simp [Request.refusals])) (fits _ (by simp [Request.refusals])) identities)
    fun enrolled _ enrolling => ?_
  obtain ⟨records,enrolled⟩ := enrolled
  have resolving := enrolAll_resolving identities resolving enrolling
  obtain ⟨_,ids,known,_,_⟩ := enrolAll_ok identities enrolling
  have length : records.length = identities.length := by simpa using congrArg List.length ids
  have filled : records ≠ [] := by
    rintro rfl
    exact some (List.length_eq_zero_iff.mp length.symm)
  refine bind_as (adjustAccount_as (fits _ (by simp [Request.refusals])) resolving filled known request) fun adjusted _
    adjusting => ?_
  obtain ⟨resolving,own,_⟩ := adjustAccount_resolving resolving (fun linked => by rw [length,pair linked]) adjusting
  refine bind_as ?_ fun revoked _ revoking => ?_
  · unfold revokeEarlier
    split
    · exact revokeWhere_as resolving _ _
    · exact pure_as _
  · obtain ⟨resolving,accounts⟩ := revokeEarlier_resolving resolving revoking
    refine bind_as (issue_as clock (fits _ (by simp [Request.refusals])) (fun _ same => nomatch same)) fun issued _
      issuing => ?_
    have target : adjusted.1.1 ∈ revoked.accounts.map (·.id) := by
      rw [accounts]
      exact held_known own
    obtain ⟨resolving,known⟩ := issued_resolving resolving target (issue_ok issuing)
    exact bind_as (grantResponse_as resolving known true) fun _ _ _ => pure_as _
theorem recorded_resolving (resolving : Resolving data) (own : held data.accounts account.1 = some (.balance account.2))
    (decision : Decision) : Resolving (record data account decision).2 := by
  have set := setHolding_resolving resolving own (if decision.accepted
      then { account.2 with spent := account.2.spent + decision.bytes } else account.2)
  exact ⟨set.accounts,set.identities,set.grants⟩
theorem reserve_as {token operationId : String} {bytes : Int}
    (fits : ∀ refusal ∈ commonRefusals ++ (Request.reserve token operationId bytes).refusals, reasons refusal)
    (resolving : Resolving data) :
    RefusedAs reasons (reserve world options token operationId bytes data) s := by
  have clock : reasons clockUnavailable := fits _ (by simp [commonRefusals])
  refine bind_as (grant_as clock (fits _ (by simp [Request.refusals])) resolving token) fun found _ granted => ?_
  refine bind_as (refuseIf_as fun _ => fits _ (by simp [Request.refusals])) fun _ _ _ => ?_
  refine bind_as (refuseIf_as fun _ => fits _ (by simp [Request.refusals])) fun _ _ _ => ?_
  refine bind_as (refuseIf_as fun _ => fits _ (by simp [Request.refusals])) fun _ _ _ =>
    bind_as (snapshot_as ?_ _) fun _ _ _ => pure_as _
  split
  · exact resolving
  · exact recorded_resolving resolving (canonical_iff.mp (grant_ok granted).1.account).balance _
theorem renew_as {token operationId : String} {websiteIdentity : Option String}
    (fits : ∀ refusal ∈ commonRefusals ++ (Request.renew token operationId websiteIdentity).refusals, reasons refusal)
    (resolving : Resolving data) :
    RefusedAs reasons (renew world options token operationId websiteIdentity data) s := by
  have clock : reasons clockUnavailable := fits _ (by simp [commonRefusals])
  have unavailable : reasons grantUnavailable := fits _ (by simp [Request.refusals])
  refine bind_as (grant_as clock unavailable resolving token) fun found _ granted => ?_
  refine bind_as (refuseIf_as fun _ => fits _ (by simp [Request.refusals])) fun _ _ checked => ?_
  obtain ⟨usable,expiries,_,_,_⟩ := grant_ok granted
  obtain ⟨_,rfl⟩ := refuseIf_ok.mp checked
  split
  · rename_i renewal _
    refine bind_as (refuseIf_as fun _ => fits _ (by simp [Request.refusals])) fun _ _ _ => ?_
    refine bind_as (grant_as clock unavailable resolving renewal.token) fun next _ again => ?_
    have member := (grant_ok again).1.member
    exact bind_as (grantResponse_as resolving (resolving.grants next.1 member) false) fun _ _ _ => pure_as _
  · refine bind_as (issue_as clock (fits _ (by simp [Request.refusals])) ?_) fun issued _ issuing => ?_
    · intro prior same
      cases same
      obtain ⟨expiry,known,_⟩ := usable.expiry
      rw [expiries,known]
      exact Option.some_ne_none _
    · have target := held_known (canonical_iff.mp usable.account).balance
      obtain ⟨resolving,known⟩ := issued_resolving resolving target (issue_ok issuing)
      exact bind_as (grantResponse_as (renewed_resolving resolving _ _) known false) fun _ _ _ => pure_as _
theorem operation_as (request : Request) (fits : ∀ refusal ∈ commonRefusals ++ request.refusals, reasons refusal)
    (resolving : Resolving data) :
    RefusedAs reasons (request.operation world options data) s := by
  have clock : reasons clockUnavailable := fits _ (by simp [commonRefusals])
  cases request with
  | authorize identities request => exact bind_as (authorize_as fits resolving) fun _ _ _ => pure_as _
  | inspectGrant token =>
    refine bind_as ?_ fun _ _ _ => pure_as _
    refine bind_as (grant_as clock (fits _ (by simp [Request.refusals])) resolving token) fun _ _ _ => ?_
    exact bind_as (snapshot_as resolving _) fun _ _ _ => pure_as _
  | reserve token operationId bytes => exact bind_as (reserve_as fits resolving) fun _ _ _ => pure_as _
  | renew token operationId websiteIdentity => exact bind_as (renew_as fits resolving) fun _ _ _ => pure_as _
  | revokeGrant token =>
    refine bind_as ?_ fun _ _ _ => pure_as _
    refine bind_as (grant_as clock (fits _ (by simp [Request.refusals])) resolving token) fun _ _ _ => ?_
    exact revokeWhere_as resolving _ _

end
end RelaySwarm.Ledger
