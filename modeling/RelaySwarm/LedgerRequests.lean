import RelaySwarm.LedgerAccounts

/-!
What an answered request did. An authorisation enrols its identities, links their
accounts, applies its settings, ends earlier grants and issues one (`Authorised`);
every other request works under a usable token (`Did`). Around it the state is
pruned before and validated after (`Applied`).
-/
namespace RelaySwarm.Ledger
open Script Effect

variable {data : Data} {s s' : Side}
section
variable {world : World} {options : Options}

structure Quiet (s s' : Side) : Prop where
  expiries : s'.expiries = s.expiries
  tokens : s'.tokens = s.tokens
theorem Issued.of_quiet {data issued : Data} {account : String × Balance} {request : Issue} {s s₁ s' : Side}
    {value : Grant} (quiet : Quiet s s₁) (done : Issued world data account request s₁ value issued s') :
    Issued world data account request s value issued s' := by
  refine ⟨?_,done.issued,done.tokens.trans (by rw [quiet.tokens]),?_⟩
  · rw [← quiet.tokens]; exact done.shape
  · rw [← quiet.expiries]; exact done.expiries

/-! ### Authorisation -/

/-- Enrolment appends identities, and an account for each new one that has spent
    nothing. -/
structure Enrolled (options : Options) (data enrolled : Data) : Prop where
  secret : enrolled.secret = data.secret
  accounts : ∃ fresh, enrolled.accounts = data.accounts ++ fresh ∧
    ∀ account ∈ fresh, account.holding = .balance ⟨options.defaultLimit,0,1,1⟩
  identities : ∃ fresh, enrolled.identities = data.identities ++ fresh
  grants : enrolled.grants = data.grants
  operations : enrolled.operations = data.operations
theorem Enrolled.refl (data : Data) : Enrolled options data data :=
  ⟨rfl,⟨[],by simp,by simp⟩,⟨[],by simp⟩,rfl,rfl⟩
theorem Enrolled.trans {a b c : Data} (first : Enrolled options a b) (second : Enrolled options b c) :
    Enrolled options a c := by
  obtain ⟨fresh,added,new⟩ := first.accounts
  obtain ⟨fresh',added',new'⟩ := second.accounts
  obtain ⟨more,known⟩ := first.identities
  obtain ⟨more',known'⟩ := second.identities
  refine ⟨second.secret.trans first.secret,⟨fresh ++ fresh',by rw [added',added,List.append_assoc],?_⟩,
    ⟨more ++ more',by rw [known',known,List.append_assoc]⟩,second.grants.trans first.grants,
    second.operations.trans first.operations⟩
  intro account member
  exact (List.mem_append.mp member).elim (new account) (new' account)

theorem enrol_ok {data enrolled : Data} {value : Verified} {record : Identity}
    (done : enrol world options data value s = (.ok (record,enrolled),s')) : Enrolled options data enrolled ∧
      record.id = world.digest data.secret value ∧ record ∈ enrolled.identities ∧ Quiet s s' ∧
      s'.highestWall = s.highestWall := by
  simp only [enrol,identityId,bind_ok,refuseIf_ok,pure_ok] at done
  obtain ⟨_,_,⟨_,_,⟨_,rfl⟩,rfl,rfl⟩,rest⟩ := done
  cases known : data.identities.find? (fun identity => identity.id = world.digest data.secret value) with
  | some found =>
    simp only [known,pure_ok,Prod.mk.injEq] at rest
    obtain ⟨⟨rfl,rfl⟩,rfl⟩ := rest
    exact ⟨Enrolled.refl _,by simpa using List.find?_some known,List.mem_of_find?_eq_some known,⟨rfl,rfl⟩,rfl⟩
  | none =>
    simp only [known,enrolNew,bind_ok,refuseIf_ok,randomId_ok,pure_ok,Prod.mk.injEq] at rest
    obtain ⟨_,_,⟨_,rfl⟩,_,_,⟨rfl,rfl⟩,⟨rfl,rfl⟩,rfl⟩ := rest
    exact ⟨⟨rfl,⟨_,rfl,by simp⟩,⟨_,rfl⟩,rfl,rfl⟩,rfl,by simp,⟨rfl,rfl⟩,rfl⟩
theorem enrolAll_ok (values : List Verified) : ∀ {data enrolled : Data} {records : List Identity} {s s' : Side},
    enrolAll world options data values s = (.ok (records,enrolled),s') → Enrolled options data enrolled ∧
      records.map (·.id) = values.map (world.digest data.secret) ∧ (∀ record ∈ records, record ∈ enrolled.identities) ∧
      Quiet s s' ∧ s'.highestWall = s.highestWall := by
  induction values with
  | nil =>
    intro data enrolled records s s' done
    simp only [enrolAll,pure_ok,Prod.mk.injEq] at done
    obtain ⟨⟨rfl,rfl⟩,rfl⟩ := done
    exact ⟨Enrolled.refl _,rfl,by simp,⟨rfl,rfl⟩,rfl⟩
  | cons value rest ih =>
    intro data enrolled records s s' done
    simp only [enrolAll,bind_ok,pure_ok,Prod.mk.injEq] at done
    obtain ⟨first,_,one,later,_,others,⟨rfl,rfl⟩,rfl⟩ := done
    obtain ⟨enrolled₁,id,known,quiet,wall⟩ := enrol_ok one
    obtain ⟨enrolled₂,ids,knowns,quiet',wall'⟩ := ih others
    refine ⟨enrolled₁.trans enrolled₂,?_,?_,⟨quiet'.expiries.trans quiet.expiries,quiet'.tokens.trans quiet.tokens⟩,
      wall'.trans wall⟩
    · simp [id,ids,enrolled₁.secret]
    · obtain ⟨more,added⟩ := enrolled₂.identities
      intro record member
      rcases List.mem_cons.mp member with rfl | later'
      · rw [added]; exact List.mem_append_left _ known
      · exact knowns record later'

/-- What linking does to the account of the first identity: nothing when it is not
    asked for, and otherwise it moves on alone, or takes over the other account. -/
inductive Linked (data : Data) (account : String × Balance) :
    Option (String × Balance) → (String × Balance) × Data → Prop
  | none : Linked data account Option.none (account,data)
  | alone {other : String × Balance} (same : other.1 = account.1) : Linked data account (some other)
      ((account.1,{ account.2 with revision := account.2.revision + 1 }),
        data.setHolding account.1 (.balance { account.2 with revision := account.2.revision + 1 }))
  | takes {other : String × Balance} (apart : other.1 ≠ account.1)
      (theirs : held data.accounts other.1 = some (.balance other.2)) :
      Linked data account (some other) ((account.1,account.2.linked other.2),
        (data.setHolding account.1 (.balance (account.2.linked other.2))).setHolding other.1 (.aliasTo account.1))
/-- The account asked to be linked: that of the second identity. -/
def linkedTo (data : Data) (records : List Identity) (link : Bool) : Option (String × Balance) :=
  if link then records[1]?.bind (fun second => canonical data second.accountId) else none
theorem linkRecords_ok {account : String × Balance} {records : List Identity} {link : Bool}
    {linked : (String × Balance) × Data} (pair : link = true → 2 ≤ records.length)
    (done : linkRecords data account records link s = (.ok linked,s')) :
    s' = s ∧ (link = true → (linkedTo data records link).isSome = true) ∧
      Linked data account (linkedTo data records link) linked := by
  unfold linkRecords at done
  cases link with
  | false =>
    simp only [pure_ok] at done
    obtain ⟨rfl,rfl⟩ := done
    exact ⟨rfl,by simp,.none⟩
  | true =>
    have two := pair rfl
    have second : records[1]? = some records[1] := List.getElem?_eq_getElem (by omega)
    simp only [second,linkAccounts,bind_ok,require_ok] at done
    obtain ⟨other,_,⟨found,rfl⟩,rest⟩ := done
    have asked : linkedTo data records true = some other := by simp [linkedTo,second,found]
    rw [asked]
    split_ifs at rest with same
    · simp only [pure_ok] at rest
      obtain ⟨rfl,rfl⟩ := rest
      exact ⟨rfl,fun _ => rfl,.alone same⟩
    · simp only [bind_ok,refuseIf_ok,pure_ok] at rest
      obtain ⟨_,_,⟨_,rfl⟩,rfl,rfl⟩ := rest
      exact ⟨rfl,fun _ => rfl,.takes same (canonical_iff.mp found).balance⟩

/-- The selected grants of an account, revoked. -/
def revokedWhere (data : Data) (account : String) (selected : Grant → Bool) : Data :=
  { data with grants := data.grants.map (fun grant =>
    if (canonical data grant.accountId).any (·.1 = account) && selected grant then
      { grant with revoked := true } else grant) }
theorem revokeWhere_ok {data revoked : Data} {account : String} {selected : Grant → Bool}
    (done : revokeWhere data account selected s = (.ok revoked,s')) :
    s' = s ∧ (∀ grant ∈ data.grants, (canonical data grant.accountId).isSome = true) ∧
      revoked = revokedWhere data account selected := by
  simp only [revokeWhere,bind_ok,refuseIf_ok,pure_ok] at done
  obtain ⟨_,_,⟨resolved,rfl⟩,rfl,rfl⟩ := done
  exact ⟨rfl,not_not.mp resolved,rfl⟩

/-- An authorisation that changes an account ends the grants it had. -/
def Authorisation.ends (request : Authorisation) : Prop := request.link = true ∨ request.settings.isSome = true
instance (request : Authorisation) : Decidable request.ends := inferInstanceAs (Decidable (_ ∨ _))

/-- The states an authorisation goes through. -/
structure Passage where
  enrolled : Data
  records : List Identity
  account : String × Balance
  linked : (String × Balance) × Data
  revoked : Data
  website : Option String
  value : Grant
def Passage.adjusted (p : Passage) (request : Authorisation) : (String × Balance) × Data :=
  applySettings p.linked request.settings
/-- A successful authorisation: the account of the first identity, linked and
    adjusted as asked, and a new grant on it. -/
structure Authorised (world : World) (options : Options) (data : Data) (identities : List Verified)
    (request : Authorisation) (s : Side) (response : GrantResponse) (after : Data) (s' : Side)
    (p : Passage) : Prop where
  early : s.highestWall < request.delegationExpiresAt
  pair : request.link = true → identities.length = 2
  enrolled : Enrolled options data p.enrolled
  records : p.records.map (·.id) = identities.map (world.digest data.secret)
  known : ∀ record ∈ p.records, record ∈ p.enrolled.identities
  first : ∃ first, p.records.head? = some first ∧ canonical p.enrolled first.accountId = some p.account
  asked : request.link = true → (linkedTo p.enrolled p.records request.link).isSome = true
  linked : Linked p.enrolled p.account (linkedTo p.enrolled p.records request.link) p.linked
  revoked : p.revoked = if request.ends then
    revokedWhere (p.adjusted request).2 (p.adjusted request).1.1 (fun _ => true) else (p.adjusted request).2
  resolved : request.ends → ∀ grant ∈ (p.adjusted request).2.grants,
    (canonical (p.adjusted request).2 grant.accountId).isSome = true
  issued : Issued world p.revoked (p.adjusted request).1
    ⟨request.pagePubkey,request.methods,request.delegationExpiresAt,p.website,none⟩ s p.value after s'
  grant : response.grant = p.value.token
  delegation : response.delegationExpiresAt = request.delegationExpiresAt

theorem checkAuthorisation_ok {identities : List Verified} {request : Authorisation} {done : PUnit}
    (checked : checkAuthorisation world options identities request s = (.ok done,s')) :
    (request.link = true → identities.length = 2) ∧ s.highestWall < request.delegationExpiresAt ∧ Quiet s s' := by
  simp only [checkAuthorisation,bind_ok,refuseIf_ok,time_ok] at checked
  obtain ⟨_,_,⟨_,rfl⟩,at₁,_,⟨_,wall₁,rfl⟩,_,_,⟨early,rfl⟩,at₂,_,⟨_,wall₂,rfl⟩,_,_,⟨_,rfl⟩,at₃,_,⟨_,wall₃,rfl⟩,
    valid,rfl⟩ :=
    checked
  refine ⟨fun linked => ?_,by omega,rfl,rfl⟩
  have agrees := not_not.mp (not_or.mp (not_or.mp valid).2).1
  rw [linked] at agrees
  simpa using agrees.symm
theorem revokeEarlier_ok {data revoked : Data} {account : String} {request : Authorisation}
    (done : revokeEarlier data account request s = (.ok revoked,s')) : s' = s ∧
      revoked = (if request.ends then revokedWhere data account (fun _ => true) else data) ∧
      (request.ends → ∀ grant ∈ data.grants, (canonical data grant.accountId).isSome = true) := by
  unfold revokeEarlier at done
  by_cases changing : request.link = true ∨ request.settings.isSome = true
  · rw [if_pos changing] at done
    obtain ⟨rfl,resolved,rfl⟩ := revokeWhere_ok done
    exact ⟨rfl,(if_pos changing).symm,fun _ => resolved⟩
  · rw [if_neg changing,pure_ok] at done
    obtain ⟨rfl,rfl⟩ := done
    exact ⟨rfl,(if_neg changing).symm,fun ends => absurd ends changing⟩
theorem authorize_ok {identities : List Verified} {request : Authorisation} {data after : Data}
    {response : GrantResponse}
    (done : authorize world options identities request data s = (.ok (response,after),s')) :
    ∃ p, Authorised world options data identities request s response after s' p := by
  simp only [authorize,adjustAccount,bind_ok,require_ok,pure_ok] at done
  obtain ⟨_,s₁,checked,⟨records,enrolled⟩,s₂,enrolling,adjusted,_,
    ⟨first,_,⟨head,rfl⟩,account,_,⟨owner,rfl⟩,linked,s₃,linking,
    rfl,rfl⟩,revoked,s₄,revoking,⟨value,issued⟩,s₅,issuing,response',s₆,answering,same,rfl⟩ := done
  cases same
  obtain ⟨pair,early,quiet₁⟩ := checkAuthorisation_ok checked
  obtain ⟨enrolment,ids,known,quiet₂,_⟩ := enrolAll_ok identities enrolling
  have length : records.length = identities.length := by simpa using congrArg List.length ids
  obtain ⟨rfl,asked,links⟩ := linkRecords_ok (fun on => by rw [length,pair on]) linking
  obtain ⟨rfl,revokes,resolved⟩ := revokeEarlier_ok revoking
  obtain ⟨rfl,grant,ends⟩ := grantResponse_ok answering
  have quiet : Quiet s s₄ := ⟨quiet₂.expiries.trans quiet₁.expiries,quiet₂.tokens.trans quiet₁.tokens⟩
  have issue' := issue_ok issuing
  refine ⟨⟨enrolled,records,account,linked,revoked,_,value⟩,early,pair,enrolment,ids,known,⟨first,head,owner⟩,
    asked,links,revokes,resolved,issue'.of_quiet quiet,grant,?_⟩
  rw [ends,issue'.shape]

/-! ### Requests under a token -/

/-- The first decision on the pair of a token and an operation. -/
def Data.decision (data : Data) (token operationId : String) : Option Decision :=
  data.operations.find? (fun o => o.grant = token && o.operationId = operationId)

/-- What an answered request did to the state it worked on. -/
inductive Did (world : World) (options : Options) (data : Data) (s : Side) : Request → Answer → Data → Side → Prop
  | authorised {identities : List Verified} {request : Authorisation} {response : GrantResponse}
    {after : Data} {s' : Side}
      (p : Passage) (done : Authorised world options data identities request s response after s' p) :
      Did world options data s (.authorize identities request) (.granted response) after s'
  | inspected {token : String} {inspection : Inspection} {found : Grant × String × Balance} {s' : Side}
      (usable : Usable world data token s found) (quiet : Quiet s s') :
      Did world options data s (.inspectGrant token) (.inspected inspection) data s'
  | duplicate {token operationId : String} {bytes : Int} {reservation : Reservation} {previous : Decision}
      {found : Grant × String × Balance} {s' : Side} (usable : Usable world data token s found) (quiet : Quiet s s')
      (known : data.decision token operationId = some previous) (same : previous.bytes = bytes)
      (answer : reservation.accepted = previous.accepted ∧ reservation.duplicate = true) :
      Did world options data s (.reserve token operationId bytes) (.reserved reservation) data s'
  | decided {token operationId : String} {bytes : Int} {reservation : Reservation} {found : Grant × String × Balance}
      {s' : Side} (usable : Usable world data token s found) (quiet : Quiet s s')
      (new : data.decision token operationId = none) (positive : 1 ≤ bytes)
      (answer : reservation.accepted = decide (bytes ≤ max 0 (found.2.2.limit - found.2.2.spent)) ∧
        reservation.duplicate = false) :
      Did world options data s (.reserve token operationId bytes) (.reserved reservation)
        (record data found.2 (decide' token operationId bytes found.2.2)).2 s'
  | repeated {token operationId : String} {website : Option String} {response : GrantResponse} {renewal : Renewal}
      {found next : Grant × String × Balance} {s₁ s' : Side} (usable : Usable world data token s found)
      (quiet : Quiet s s')
      (known : found.1.renewal = some renewal) (same : renewal.operationId = operationId)
      (later : Usable world data renewal.token s₁ next) (answer : response.grant = renewal.token ∧
        response.delegationExpiresAt = next.1.delegationExpiresAt) :
      Did world options data s (.renew token operationId website) (.granted response) data s'
  | renewed {token operationId : String} {website : Option String} {response : GrantResponse} {value : Grant}
      {issued : Data} {found : Grant × String × Balance} {s' : Side} (usable : Usable world data token s found)
      (new : found.1.renewal = none)
      (done : Issued world data found.2 ⟨found.1.pagePubkey,found.1.methods,found.1.delegationExpiresAt,
        found.1.websiteIdentity,some token⟩ s value issued s')
      (answer : response.grant = value.token ∧ response.delegationExpiresAt = found.1.delegationExpiresAt) :
      Did world options data s (.renew token operationId website) (.granted response)
        { issued with grants := setRenewal token ⟨operationId,value.token⟩ issued.grants } s'
  | revoked {token : String} {found : Grant × String × Balance} {s' : Side} (usable : Usable world data token s found)
      (quiet : Quiet s s') (resolved : ∀ grant ∈ data.grants, (canonical data grant.accountId).isSome = true) :
      Did world options data s (.revokeGrant token) .revoked (revokedWhere data found.2.1 (fun other =>
        other.pagePubkey = found.1.pagePubkey && other.delegationExpiresAt = found.1.delegationExpiresAt)) s'

theorem reserve_ok {token operationId : String} {bytes : Int} {data after : Data} {reservation : Reservation}
    (done : reserve world options token operationId bytes data s = (.ok (reservation,after),s')) :
    Did world options data s (.reserve token operationId bytes) (.reserved reservation) after s' := by
  simp only [reserve,bind_ok,refuseIf_ok,pure_ok,Prod.mk.injEq] at done
  obtain ⟨found,s₁,granted,_,_,⟨valid,rfl⟩,_,_,⟨agrees,rfl⟩,_,_,⟨_,rfl⟩,snap,s₂,taken,⟨rfl,rfl⟩,rfl⟩ := done
  obtain ⟨usable,expiries,tokens,_,_⟩ := grant_ok granted
  obtain ⟨rfl,_,_⟩ := snapshot_ok taken
  have positive : 1 ≤ bytes := by tauto
  cases previous : data.operations.find? (fun o => o.grant = token && o.operationId = operationId) with
  | some decision =>
    simp only [previous] at agrees ⊢
    refine .duplicate usable ⟨expiries,tokens⟩ previous (by simpa using agrees) ⟨rfl,rfl⟩
  | none =>
    simp only [previous] at agrees ⊢
    exact .decided usable ⟨expiries,tokens⟩ previous positive ⟨rfl,rfl⟩
theorem renew_ok {token operationId : String} {website : Option String} {data after : Data} {response : GrantResponse}
    (done : renew world options token operationId website data s = (.ok (response,after),s')) :
    Did world options data s (.renew token operationId website) (.granted response) after s' := by
  simp only [renew,bind_ok,refuseIf_ok] at done
  obtain ⟨found,s₁,granted,_,_,⟨_,rfl⟩,rest⟩ := done
  obtain ⟨usable,expiries,tokens,_,_⟩ := grant_ok granted
  cases renewal : found.1.renewal with
  | some known =>
    simp only [renewal,repeatRenewal,bind_ok,refuseIf_ok,pure_ok,Prod.mk.injEq] at rest
    obtain ⟨_,_,⟨same,rfl⟩,next,_,again,_,_,answering,⟨rfl,rfl⟩,rfl⟩ := rest
    obtain ⟨later,expiries',tokens',_,_⟩ := grant_ok again
    obtain ⟨rfl,answer,ends⟩ := grantResponse_ok answering
    exact .repeated usable ⟨expiries'.trans expiries,tokens'.trans tokens⟩ renewal (not_not.mp same) later
      ⟨answer.trans later.token,ends⟩
  | none =>
    simp only [renewal,firstRenewal,bind_ok,pure_ok,Prod.mk.injEq] at rest
    obtain ⟨⟨value,issued⟩,_,issuing,_,_,answering,⟨rfl,rfl⟩,rfl⟩ := rest
    obtain ⟨rfl,answer,ends⟩ := grantResponse_ok answering
    have done := (issue_ok issuing).of_quiet ⟨expiries,tokens⟩
    exact .renewed usable renewal done ⟨answer,by rw [ends,done.shape]⟩
theorem operation_ok {request : Request} {data after : Data} {answer : Answer}
    (done : request.operation world options data s = (.ok (answer,after),s')) :
    Did world options data s request answer after s' := by
  cases request with
  | authorize identities request =>
    simp only [Request.operation,bind_ok,pure_ok,Prod.mk.injEq] at done
    obtain ⟨_,_,done,⟨rfl,rfl⟩,rfl⟩ := done
    obtain ⟨p,done⟩ := authorize_ok done
    exact .authorised p done
  | inspectGrant token =>
    simp only [Request.operation,Ledger.inspectGrant,bind_ok,pure_ok,Prod.mk.injEq] at done
    obtain ⟨_,_,⟨found,_,granted,_,_,taken,rfl,rfl⟩,⟨rfl,rfl⟩,rfl⟩ := done
    obtain ⟨usable,expiries,tokens,_,_⟩ := grant_ok granted
    obtain ⟨rfl,_,_⟩ := snapshot_ok taken
    exact .inspected usable ⟨expiries,tokens⟩
  | reserve token operationId bytes =>
    simp only [Request.operation,bind_ok,pure_ok,Prod.mk.injEq] at done
    obtain ⟨_,_,done,⟨rfl,rfl⟩,rfl⟩ := done
    exact reserve_ok done
  | renew token operationId website =>
    simp only [Request.operation,bind_ok,pure_ok,Prod.mk.injEq] at done
    obtain ⟨_,_,done,⟨rfl,rfl⟩,rfl⟩ := done
    exact renew_ok done
  | revokeGrant token =>
    simp only [Request.operation,Ledger.revokeGrant,bind_ok,pure_ok,Prod.mk.injEq] at done
    obtain ⟨_,_,⟨found,_,granted,revoking⟩,⟨rfl,rfl⟩,rfl⟩ := done
    obtain ⟨usable,expiries,tokens,_,_⟩ := grant_ok granted
    obtain ⟨rfl,resolved,rfl⟩ := revokeWhere_ok revoking
    exact .revoked usable ⟨expiries,tokens⟩ resolved

/-! ### A request applied -/

theorem validate_ok {done : PUnit} (checked : validate world options data s = (.ok done,s')) :
    data.valid options ∧ Quiet s s' := by
  simp only [validate,bind_ok,refuseIf_ok,time_ok] at checked
  obtain ⟨_,_,⟨_,rfl⟩,_,_,⟨_,_,rfl⟩,valid,rfl⟩ := checked
  exact ⟨not_not.mp (not_or.mp valid).2,rfl,rfl⟩

/-- An answered request: the state it worked on, pruned when it may change it, what
    it did there, and the validated state it leaves. -/
structure Applied (world : World) (options : Options) (request : Request) (working : Data) (s : Side) (answer : Answer)
    (next : Data) (s' : Side) (base result : Data) (s₁ s₂ : Side) : Prop where
  /-- The wall clock as the request is applied. -/
  reading : ∃ moment, world.now s.walls = some moment ∧ s.highestWall ≤ moment ∧ moment ≤ s₁.highestWall
  pruned : if request.write then Pruned working base else base = working
  tokens : s₁.tokens = s.tokens
  monos : s₁.monos = s.monos
  expiries : ∀ token, s₁.expiries token = s.expiries token ∨ s₁.expiries token = none
  did : Did world options base s₁ request answer result s₂
  committed : if request.write then next.valid options ∧
    ∃ moment, next = { result with lastWall := moment } else next = working
  quiet : Quiet s₂ s'
theorem apply_ok {entry : Entry} {working next : Data} {answer : Answer}
    (done : apply world options entry working s = (.ok (answer,next),s')) : ∃ base result s₁ s₂,
      Applied world options entry.request working s answer next s' base result s₁ s₂ := by
  simp only [apply,bind_ok,refuseIf_ok,time_ok] at done
  obtain ⟨_,_,⟨_,rfl⟩,here,_,⟨reading,wall,rfl⟩,_,_,⟨_,rfl⟩,base,s₁,candidate,⟨answer',result⟩,s₂,operated,_,_,⟨_,rfl⟩,
    committed⟩ := done
  have did := operation_ok operated
  unfold Ledger.candidate at candidate
  unfold commit at committed
  cases write : entry.request.write with
  | true =>
    simp only [write,if_true,bind_ok,time_ok,pure_ok,Prod.mk.injEq] at candidate committed
    obtain ⟨pruned,tokens,monos,more,expiries⟩ := prune_ok candidate
    obtain ⟨at₂,_,⟨_,_,rfl⟩,_,_,validated,⟨rfl,rfl⟩,rfl⟩ := committed
    obtain ⟨valid,quiet⟩ := validate_ok validated
    exact ⟨base,result,s₁,s₂,⟨here,reading,wall,more⟩,by rw [if_pos write]; exact pruned,tokens,monos,expiries,did,
      by rw [if_pos write]; exact ⟨valid,at₂,rfl⟩,⟨quiet.expiries,quiet.tokens⟩⟩
  | false =>
    simp only [write,Bool.false_eq_true,if_false,pure_ok,Prod.mk.injEq] at candidate committed
    obtain ⟨rfl,rfl⟩ := candidate
    obtain ⟨⟨rfl,rfl⟩,rfl⟩ := committed
    have reads : ¬ entry.request.write = true := by simp [write]
    exact ⟨working,result,{ s with walls := s.walls + 1, highestWall := here },s₂,⟨here,reading,wall,le_refl _⟩,
      by rw [if_neg reads],rfl,rfl,fun _ => .inl rfl,did,by rw [if_neg reads],⟨rfl,rfl⟩⟩

end
end RelaySwarm.Ledger
