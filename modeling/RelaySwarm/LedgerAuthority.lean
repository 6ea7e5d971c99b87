import RelaySwarm.LedgerSpend

/-!
No authority to upload outlives its delegation or its revocation (`authority_ends`).
A token is traced to the authorisation that began its chain of renewals; the chain
keeps the page, the account and the end of its delegation, on both clocks. A token
is dead once it was drawn and no unrevoked grant has it, and stays dead.
-/
namespace RelaySwarm.Ledger
open Effect

variable {data : Data} {s s' : Side} {p : Process}
/-- The token a request is made with. -/
def Request.token : Request → Option String
  | .authorize _ _ => none
  | .inspectGrant token | .reserve token _ _ | .renew token _ _ | .revokeGrant token => some token
/-- Where a token comes from: the authorisation that began its chain, and its grant
    as it was first given out. -/
structure Origin where
  root : Happening
  value : Grant
variable {origin : Origin}
def originsAfter (known : String → Option Origin) (h : Happening) (token : String) : Option Origin :=
  match h.request,h.answer with
  | .authorize _ _,.granted r =>
    if token = r.grant then known token <|> (h.after.grant? token).map (⟨h,·⟩) else known token
  | .renew prior _ _,.granted r =>
    if token = r.grant then known token <|> (known prior).bind (fun origin =>
      (h.after.grant? token).map (⟨origin.root,·⟩)) else known token
  | _,_ => known token
def origins (log : List Happening) : String → Option Origin := log.foldl originsAfter (fun _ => none)

section
variable {world : World} {options : Options}

theorem origins_concat (log : List Happening) (h : Happening) :
    origins (log ++ [h]) = originsAfter (origins log) h := by
  simp [origins]
theorem originsAfter_known {known : String → Option Origin} {h : Happening} {token : String}
    (there : known token = some origin) : originsAfter known h token = some origin := by
  unfold originsAfter
  split
  · split_ifs
    · simp [there]
    · exact there
  · split_ifs
    · simp [there]
    · exact there
  · exact there

/-! ### Accounts -/

theorem Linked.follows {account : String × Balance} {other : Option (String × Balance)}
    {linked : (String × Balance) × Data} (links : Linked data account other linked)
    (mine : held data.accounts account.1 = some (.balance account.2)) :
    ∃ f, Follows data.accounts linked.2.accounts f ∧ f account.1 = linked.1.1 ∧
      ∀ two, other = some two → f two.1 = linked.1.1 := by
  cases links with
  | none => exact ⟨id,Follows.refl _,rfl,by simp⟩
  | alone same => exact ⟨id,Follows.replace mine _,rfl,fun two found => by cases found; exact same⟩
  | takes apart theirs => exact ⟨_,Follows.linked apart mine theirs _,by simp,fun two found => by cases found; simp⟩
theorem Authorised.follows {data after : Data} {identities : List Verified} {request : Authorisation}
    {response : GrantResponse} {p : Passage}
    (done : Authorised world options data identities request s response after s' p) :
    ∃ f, Follows p.enrolled.accounts after.accounts f ∧ f p.account.1 = (p.adjusted request).1.1 ∧
      ∀ two, linkedTo p.enrolled p.records request.link = some two → f two.1 = (p.adjusted request).1.1 := by
  obtain ⟨first,_,owner⟩ := done.first
  obtain ⟨f,follows,mine,theirs⟩ := done.linked.follows (canonical_iff.mp owner).balance
  have same : after.accounts = (p.adjusted request).2.accounts := by
    rw [done.issued.issued]
    change p.revoked.accounts = _
    rw [done.revoked]
    split_ifs <;> rfl
  have adjusted : Follows p.linked.2.accounts (p.adjusted request).2.accounts id ∧
      (p.adjusted request).1.1 = p.linked.1.1 := by
    unfold Passage.adjusted applySettings
    cases request.settings with
    | none => exact ⟨Follows.refl _,rfl⟩
    | some settings => exact ⟨Follows.replace done.touched.1.mine _,rfl⟩
  rw [same,adjusted.2]
  exact ⟨id ∘ f,follows.trans adjusted.1,mine,theirs⟩
section
variable {data after : Data} {identities : List Verified} {request : Authorisation} {response : GrantResponse}
  {p : Passage} (done : Authorised world options data identities request s response after s' p)
include done

theorem Authorised.same_identities : after.identities = p.enrolled.identities := by
  have links := done.linked
  generalize linkedTo p.enrolled p.records request.link = other at links
  have linked : p.linked.2.identities = p.enrolled.identities := by
    generalize p.linked = linked at links
    cases links <;> rfl
  have adjusted : (p.adjusted request).2.identities = p.linked.2.identities := by
    unfold Passage.adjusted applySettings
    cases request.settings <;> rfl
  rw [done.issued.issued]
  change p.revoked.identities = _
  rw [done.revoked]
  split_ifs <;> exact adjusted.trans linked
/-- The account of an identity that is asked for becomes the one the grant is made on. -/
theorem Authorised.home {identity : Identity} (there : identity ∈ data.identities)
    (ids : (p.enrolled.identities.map (·.id)).Nodup)
    (asked : identity.id ∈ (if request.link then identities else identities.take 1).map (world.digest data.secret))
    {f : String → String} (mine : f p.account.1 = (p.adjusted request).1.1)
    (theirs : ∀ two, linkedTo p.enrolled p.records request.link = some two → f two.1 = (p.adjusted request).1.1) :
    ∃ owner, canonical p.enrolled identity.accountId = some owner ∧ f owner.1 = (p.adjusted request).1.1 := by
  obtain ⟨fresh,added⟩ := done.enrolled.identities
  have enrolled : identity ∈ p.enrolled.identities := by
    rw [added]
    exact List.mem_append_left _ there
  have record {record : Identity} (member : record ∈ p.records) (same : record.id = identity.id) :
      record = identity := List.inj_on_of_nodup_map ids (done.known record member) enrolled same
  obtain ⟨first,head,owner⟩ := done.first
  have records := done.records
  cases link : request.link with
  | false =>
    rw [link,if_neg (by simp),List.map_take,← records,← List.map_take] at asked
    obtain ⟨rest,split⟩ : ∃ rest, p.records = first :: rest := List.head?_eq_some_iff.mp head
    rw [split] at asked
    have same : identity.id = first.id := by simpa using asked
    rw [← record (by simp [split]) same.symm]
    exact ⟨_,owner,mine⟩
  | true =>
    rw [link,if_pos rfl,← records] at asked
    obtain ⟨chosen,member',same⟩ := List.mem_map.mp asked
    have length : p.records.length = 2 := by
      have same := congrArg List.length done.records
      simp only [List.length_map] at same
      rw [same,done.pair link]
    obtain ⟨first',second,split⟩ := List.length_eq_two.mp length
    have equal := record member' same
    subst equal
    rw [split] at member' head
    simp only [List.head?_cons,Option.some.injEq] at head
    subst head
    rcases List.mem_cons.mp member' with rfl | other
    · exact ⟨_,owner,mine⟩
    · rw [List.mem_singleton.mp other]
      have asked' := done.asked link
      obtain ⟨two,found⟩ := Option.isSome_iff_exists.mp asked'
      refine ⟨two,?_,theirs two found⟩
      rw [link] at found
      simpa [linkedTo,split] using found

end

theorem Did.follows {data after : Data} {request : Request} {answer : Answer}
    (did : Did world options data s request answer after s') : ∃ f, Follows data.accounts after.accounts f := by
  cases did with
  | @authorised identities request response after s' p done =>
    obtain ⟨f,follows,_⟩ := done.follows
    obtain ⟨fresh,added,_⟩ := done.enrolled.accounts
    rw [added] at follows
    exact ⟨_,(Follows.append data.accounts fresh).trans follows⟩
  | @decided token operationId bytes reservation found s' usable quiet new positive answer =>
    exact ⟨_,Follows.replace (canonical_iff.mp usable.account).balance _⟩
  | renewed usable new done answer => rw [done.issued]; exact ⟨_,Follows.refl _⟩
  | inspected | duplicate | repeated | revoked => exact ⟨_,Follows.refl _⟩

/-! ### Grants and their successors -/

theorem Marked.revokes {grant later : Grant} {taken : Bool}
    (same : (if taken then { grant with revoked := true } else grant) = later) : Marked grant later := by
  rw [← same]
  split_ifs
  · exact ⟨rfl,fun _ => rfl,fun _ => id⟩
  · exact Marked.refl grant
theorem Marked.trans {a b c : Grant} (first : Marked a b) (second : Marked b c) : Marked a c := by
  refine ⟨?_,fun revoked => second.revoked (first.revoked revoked),
    fun renewal had => second.renewal _ (first.renewal _ had)⟩
  rw [second.same,first.same]
theorem Did.usable {data after : Data} {request : Request} {answer : Answer}
    (did : Did world options data s request answer after s') {token : String} (own : request.token = some token) :
    ∃ found, Usable world data token s found := by
  cases did with
  | authorised => cases own
  | inspected usable | duplicate usable | decided usable | repeated usable | renewed usable | revoked usable =>
    cases own
    exact ⟨_,usable⟩
/-- The grant that a request gives out, when it gives out a new one. -/
structure Gives (world : World) (s : Side) (response : GrantResponse) (after : Data) (s' : Side)
    (value : Grant) : Prop where
  grant : response.grant = world.token s.tokens
  token : value.token = response.grant
  delegation : response.delegationExpiresAt = value.delegationExpiresAt
  more : s.tokens < s'.tokens
  member : value ∈ after.grants
  account : ∃ b, held after.accounts value.accountId = some (.balance b)
theorem Authorised.gives {data after : Data} {identities : List Verified} {request : Authorisation} {s s' : Side}
    {response : GrantResponse} {p : Passage}
    (done : Authorised world options data identities request s response after s' p) :
    Gives world s response after s' p.value ∧ p.value.pagePubkey = request.pagePubkey ∧
      p.value.delegationExpiresAt = request.delegationExpiresAt ∧ p.value.renewal = none ∧
      ∃ expiry, s'.expiries response.grant = some expiry := by
  obtain ⟨grants,_,token⟩ := done.grants
  have shape := done.issued.shape
  obtain ⟨_,_,expiries,_⟩ := done.issued.expiries
  refine ⟨⟨done.grant.trans token,done.grant.symm,?_,by rw [done.issued.tokens]; omega,by simp [grants],?_⟩,
    by rw [shape],by rw [shape],by rw [shape],_,by rw [expiries,done.grant]; exact if_pos rfl⟩
  · rw [done.delegation,shape]
  · rw [shape]; exact ⟨_,done.touched.2.mine⟩
theorem Issued.renewed {data issued : Data} {account : String × Balance} {request : Issue} {s s' : Side} {value : Grant}
    (done : Issued world data account request s value issued s') {token : String} (drawn : token ≠ value.token)
    (renewal : Renewal) : value ∈ setRenewal token renewal issued.grants := by
  rw [done.issued]
  induction data.grants with
  | nil => simp [setRenewal,Ne.symm drawn]
  | cons grant rest ih =>
    dsimp only at ih ⊢
    rw [List.cons_append,setRenewal]
    split_ifs
    · simp
    · exact List.mem_cons_of_mem _ ih

theorem Did.renewals {data after : Data} {request : Request} {answer : Answer}
    (did : Did world options data s request answer after s') {later : Grant} (member : later ∈ after.grants)
    {renewal : Renewal} (had : later.renewal = some renewal) :
    (∃ grant ∈ data.grants, grant.token = later.token ∧ grant.renewal = some renewal) ∨
      ∃ operationId website r, request = .renew later.token operationId website ∧ answer = .granted r ∧
        renewal = ⟨operationId,r.grant⟩ := by
  have kept {grants : Data} {account : String} {selected : Grant → Bool}
      (member : later ∈ (revokedWhere grants account selected).grants) :
      ∃ grant ∈ grants.grants, grant.token = later.token ∧ grant.renewal = some renewal := by
    obtain ⟨grant,there,same⟩ := List.mem_map.mp member
    refine ⟨grant,there,?_⟩
    rw [← same] at had ⊢
    split_ifs at had ⊢ <;> exact ⟨rfl,had⟩
  cases did with
  | @authorised identities request response after s' p done =>
    obtain ⟨grants,adjusted,_⟩ := done.grants
    rw [grants] at member
    rcases List.mem_append.mp member with old | new
    · rw [done.revoked] at old
      split_ifs at old
      · obtain ⟨grant,there,same⟩ := kept old
        rw [adjusted] at there
        exact .inl ⟨grant,there,same⟩
      · rw [adjusted] at old
        exact .inl ⟨later,old,rfl,had⟩
    · rw [List.mem_singleton.mp new,done.gives.2.2.2.1] at had
      cases had
  | inspected | duplicate | decided | repeated => exact .inl ⟨later,member,rfl,had⟩
  | @renewed token operationId website response value issued found s' usable new done answer =>
    rcases setRenewal_grants member with old | ⟨grant,seen,rfl⟩
    · rw [done.issued] at old
      rcases List.mem_append.mp old with old | new
      · exact .inl ⟨later,old,rfl,had⟩
      · rw [List.mem_singleton.mp new,done.shape] at had
        cases had
    · have own : grant.token = token := by simpa using List.find?_some seen
      cases had
      exact .inr ⟨operationId,website,response,by rw [own],rfl,by rw [answer.1]⟩
  | revoked => exact .inl (kept member)
theorem setRenewal_first {token : String} {renewal : Renewal} {grants : List Grant}
    (distinct : (grants.map (·.token)).Nodup) {later : Grant} (member : later ∈ setRenewal token renewal grants)
    (own : later.token = token) : later.renewal = some renewal := by
  induction grants with
  | nil => cases member
  | cons grant rest ih =>
    obtain ⟨absent,distinct⟩ := List.nodup_cons.mp distinct
    unfold setRenewal at member
    split_ifs at member with here
    · rcases List.mem_cons.mp member with rfl | there
      · rfl
      · exact absurd (List.mem_map.mpr ⟨later,there,own.trans here.symm⟩) absent
    · rcases List.mem_cons.mp member with rfl | there
      · exact absurd own here
      · exact ih distinct there
theorem setRenewal_tokens (token : String) (renewal : Renewal) (grants : List Grant) :
    (setRenewal token renewal grants).map (·.token) = grants.map (·.token) := by
  induction grants with
  | nil => rfl
  | cons grant rest ih =>
    unfold setRenewal
    split_ifs <;> simp [ih]
theorem Did.successor {data after : Data} {token operationId : String} {website : Option String} {r : GrantResponse}
    (did : Did world options data s (.renew token operationId website) (.granted r) after s')
    (distinct : (after.grants.map (·.token)).Nodup) {grant : Grant} (member : grant ∈ after.grants)
    (own : grant.token = token) : grant.renewal = some ⟨operationId,r.grant⟩ := by
  cases did with
  | @repeated _ _ _ _ renewal found next _ _ usable quiet known same later answer =>
    have first : grant = found.1 :=
      List.inj_on_of_nodup_map distinct member usable.member (own.trans usable.token.symm)
    rw [first,known,← same,answer.1]
  | @renewed _ _ _ _ value issued found _ usable new done answer =>
    rw [setRenewal_tokens] at distinct
    rw [answer.1]
    exact setRenewal_first distinct member own

/-! ### The chain of a token -/

/-- What is known of a token and its origin: its chain began with an authorisation,
    for the page, the end and the account that the token still has. -/
structure Traced (world : World) (p : Process) (token : String) (origin : Origin) : Prop where
  drawn : Drawn world p.side token
  same : origin.value.token = token
  member : origin.root ∈ p.log
  process : origin.root.process ≤ p.opened
  began : ∃ identities request response first, origin.root.request = .authorize identities request ∧
    origin.root.answer = .granted response ∧ origins p.log response.grant = some ⟨origin.root,first⟩ ∧
    response.delegationExpiresAt = request.delegationExpiresAt ∧
    origin.value.delegationExpiresAt = request.delegationExpiresAt ∧ origin.value.pagePubkey = request.pagePubkey ∧
    (∃ owner, Resolves p.data.accounts origin.value.accountId owner ∧
      payer p.data.accounts first.accountId = some owner.1) ∧
    (origin.root.process = p.opened → ∀ expiry, p.side.expiries token = some expiry →
      ∃ first, origin.root.finish.expiries response.grant = some first ∧ expiry.delegation = first.delegation)

theorem Traced.mates {token other : String} {origin o : Origin} (traced : Traced world p token origin)
    (traced' : Traced world p other o) (root : origin.root = o.root) :
    origin.value.pagePubkey = o.value.pagePubkey ∧ origin.value.delegationExpiresAt = o.value.delegationExpiresAt ∧
      payer p.data.accounts origin.value.accountId = payer p.data.accounts o.value.accountId := by
  obtain ⟨_,request,response,first,asked,granted,known,_,ends,page,⟨owner,mine,same⟩,_⟩ := traced.began
  obtain ⟨_,request',response',first',asked',granted',known',_,ends',page',⟨owner',mine',same'⟩,_⟩ := traced'.began
  rw [root,asked'] at asked
  rw [root,granted'] at granted
  cases asked
  cases granted
  rw [root,known'] at known
  simp only [Option.some.injEq,Origin.mk.injEq,true_and] at known
  subst known
  exact ⟨page.trans page'.symm,ends.trans ends'.symm,by rw [payer_eq mine,payer_eq mine',← same,← same']⟩

/-- What an answered request owes to its token: the chain has not ended on the wall
    clock, nor on the clock of the process that began it. -/
def Timely (world : World) (earlier : List Happening) (h : Happening) : Prop :=
  ∀ token, h.request.token = some token → ∃ origin identities request response, origins earlier token = some origin ∧
    origin.root.request = .authorize identities request ∧ origin.root.answer = .granted response ∧
    (∃ moment, world.now h.start.walls = some moment ∧ moment < request.delegationExpiresAt) ∧
    (h.process = origin.root.process → ∃ expiry, origin.root.finish.expiries response.grant = some expiry ∧
      world.monotonic h.start.monos < expiry.delegation)

/-- The token was drawn, and no grant with it is left that is not revoked. -/
structure Dead (world : World) (p : Process) (token : String) : Prop where
  drawn : Drawn world p.side token
  revoked : ∀ grant ∈ p.data.grants, grant.token = token → grant.revoked = true

/-- The tokens an answered request ends: a revocation those of the chain of its own
    token, and those of its account, page and delegation; a link those of the accounts
    of both identities; new settings those of the account of the first one. -/
def Ended (world : World) (earlier : List Happening) (h : Happening) (token : String) : Prop :=
  ∃ origin, origins earlier token = some origin ∧ match h.request with
    | .revokeGrant own => ∃ o, origins earlier own = some o ∧ (origin.root = o.root ∨
      origin.value.pagePubkey = o.value.pagePubkey ∧ origin.value.delegationExpiresAt = o.value.delegationExpiresAt ∧
      payer h.before.accounts origin.value.accountId = payer h.before.accounts o.value.accountId)
    | .authorize identities request => request.ends ∧ ∃ identity ∈ h.before.identities,
      identity.id ∈ (if request.link then identities else identities.take 1).map (world.digest h.before.secret) ∧
      payer h.before.accounts origin.value.accountId = payer h.before.accounts identity.accountId
    | _ => False

/-- What holds of the chains over a run. -/
structure Authority (world : World) (options : Options) (p : Process) : Prop where
  sound : Sound world options p
  given : ∀ grant ∈ p.data.grants, ∃ origin, origins p.log grant.token = some origin ∧ Marked origin.value grant
  traced : ∀ token origin, origins p.log token = some origin → Traced world p token origin
  /-- A grant that was renewed points at a token of its own chain. -/
  renewed : ∀ grant ∈ p.data.grants, ∀ renewal, grant.renewal = some renewal →
    ∃ o o', origins p.log grant.token = some o ∧
    origins p.log renewal.token = some o' ∧ o'.root = o.root
  successor : ∀ h ∈ p.log, ∀ token operationId website r, h.request = .renew token operationId website →
    h.answer = .granted r → Drawn world p.side token ∧
      ∀ grant ∈ p.data.grants, grant.token = token → grant.renewal = some ⟨operationId,r.grant⟩
  unique : ∀ h ∈ p.log, ∀ h' ∈ p.log, ∀ token operationId website r operationId' website' r',
    h.request = .renew token operationId website → h.answer = .granted r →
    h'.request = .renew token operationId' website' → h'.answer = .granted r' →
      operationId = operationId' ∧ r.grant = r'.grant
  chains : ∀ h ∈ p.log, ∀ token operationId website r, h.request = .renew token operationId website →
    h.answer = .granted r → ∃ o o', origins p.log token = some o ∧ origins p.log r.grant = some o' ∧ o'.root = o.root ∧
      r.delegationExpiresAt = o.value.delegationExpiresAt
  timely : ∀ earlier h later, p.log = earlier ++ h :: later → Timely world earlier h
  ended : ∀ earlier h later, p.log = earlier ++ h :: later → ∀ token, Ended world earlier h token →
    Dead world p token ∧ ∀ use ∈ later, use.request.token ≠ some token

/-! ### What a step keeps -/

/-- What the chains need of a step: origins and accounts are followed, and what the
    process remembers is kept, unless a new one began. -/
structure Onward (world : World) (p p' : Process) : Prop where
  log : ∃ more, p'.log = p.log ++ more
  known : ∀ token origin, origins p.log token = some origin → origins p'.log token = some origin
  accounts : ∃ f, Follows p.data.accounts p'.data.accounts f
  tokens : p.side.tokens ≤ p'.side.tokens
  process : p'.opened = p.opened ∧ Keeps world (fun _ => False) p.side p'.side ∨ p'.opened = p.opened + 1
theorem Rests.onward {p p' : Process} (rests : Rests world p p') : Onward world p p' := by
  obtain ⟨log,⟨here,data⟩,tokens,process⟩ := rests
  refine ⟨⟨[],by simp [log]⟩,by simp [log],⟨id,?_⟩,tokens,process⟩
  rw [data]
  exact Follows.refl _
theorem Keeps.drawn (kept : Keeps world (fun _ => False) s s') (distinct : Distinct world s') {token : String}
    (drawn : Drawn world s token) {expiry : Expiry} (there : s'.expiries token = some expiry) :
    s.expiries token = some expiry := by
  rcases kept.expiries token id with same | gone | ⟨n,low,high,same⟩
  · rw [← same]; exact there
  · rw [gone] at there; cases there
  · obtain ⟨m,early,same'⟩ := drawn
    have equal := distinct (Nat.lt_of_lt_of_le early kept.tokens) high (same'.trans same.symm)
    omega
theorem Traced.onward {p p' : Process} {token : String} (traced : Traced world p token origin)
    (onward : Onward world p p') (distinct : Distinct world p'.side) : Traced world p' token origin := by
  obtain ⟨more,log⟩ := onward.log
  obtain ⟨f,follows⟩ := onward.accounts
  obtain ⟨identities,request,response,first,asked,granted,known,fixed,ends,page,⟨owner,mine,same⟩,expiry⟩ :=
    traced.began
  have later : origin.root.process ≤ p'.opened := by
    have early := traced.process
    rcases onward.process with ⟨same,_⟩ | new <;> omega
  obtain ⟨first',firsts⟩ : ∃ first', Resolves p.data.accounts first.accountId first' := by
    unfold payer at same
    obtain ⟨owner',found,_⟩ := Option.map_eq_some_iff.mp same
    exact ⟨owner',canonicalFrom_resolves _ found⟩
  obtain ⟨owner',mine',moved⟩ := follows _ _ mine
  obtain ⟨first'',firsts',moved'⟩ := follows _ _ firsts
  rw [payer_eq firsts,Option.some.injEq] at same
  refine ⟨traced.drawn.later onward.tokens,traced.same,by rw [log]; exact List.mem_append_left _ traced.member,later,
    identities,request,response,first,asked,granted,onward.known _ _ known,fixed,ends,page,⟨owner',mine',?_⟩,?_⟩
  · rw [payer_eq firsts',moved',same,moved]
  · intro current e there
    rcases onward.process with ⟨still,kept⟩ | new
    · exact expiry (current.trans still) e (kept.drawn distinct traced.drawn there)
    · have early := traced.process
      omega
theorem Dead.onward {p p' : Process} {token : String} (dead : Dead world p token)
    (moved : Moved world p.side p'.side p.data.grants p'.data.grants) (distinct : Distinct world p'.side) :
    Dead world p' token := by
  refine ⟨dead.drawn.later moved.tokens,fun later member own => ?_⟩
  rcases moved.grants later member with ⟨grant,there,marked⟩ | ⟨new,more⟩
  · exact marked.revoked (dead.revoked grant there (marked.token.symm.trans own))
  · exact absurd (own.symm.trans new) (dead.drawn.ne_next distinct more)

section
variable {p : Process} {entry : Entry} {answer : Answer} {next base result : Data} {s' s₁ s₂ : Side}

theorem Applied.onward (applied : Applied world options entry.request p.data p.side answer next s' base result s₁ s₂)
    (kept : Keeps world (fun _ => False) p.side s') :
    Onward world p (p.answered entry.request answer next s') := by
  obtain ⟨f,follows⟩ := applied.did.follows
  obtain ⟨here,mark⟩ := applied.frame.result
  refine ⟨⟨_,rfl⟩,fun token origin known => ?_,⟨f,?_⟩,kept.tokens,.inl ⟨rfl,kept⟩⟩
  · rw [origins_concat]; exact originsAfter_known known
  · rw [applied.frame.accounts] at follows
    rw [mark]
    exact follows

theorem Authority.unknown (authority : Authority world options p) (distinct : Distinct world s')
    (more : p.side.tokens < s'.tokens) : origins p.log (world.token p.side.tokens) = none := by
  cases known : origins p.log (world.token p.side.tokens) with
  | none => rfl
  | some origin => exact absurd rfl ((authority.traced _ _ known).drawn.ne_next distinct more)

section
variable (authority : Authority world options p)
  (applied : Applied world options entry.request p.data p.side answer next s' base result s₁ s₂)
include authority applied

theorem Authority.next_timely :
    Timely world p.log ⟨p.opened,p.data,p.side,entry.request,answer,next,s'⟩ := by
  intro token own
  obtain ⟨found,usable⟩ := applied.did.usable own
  obtain ⟨origin,known,marked⟩ := authority.given found.1 (applied.frame.sub.subset usable.member)
  rw [usable.token] at known
  obtain ⟨identities,request,response,first,asked,granted,_,fixed,ends,_,_,expiry⟩ := (authority.traced _ _ known).began
  obtain ⟨here,reading,_,wall⟩ := applied.reading
  obtain ⟨e,there,young⟩ := usable.expiry
  refine ⟨origin,identities,request,response,known,asked,granted,⟨here,reading,?_⟩,fun current => ?_⟩
  · have early := usable.wall
    rw [marked.delegation,ends] at early
    omega
  · have same : p.side.expiries token = some e := by
      rcases applied.expiries token with same | gone
      · rw [← same]; exact there
      · rw [gone] at there; cases there
    obtain ⟨first',known',equal⟩ := expiry current.symm e same
    refine ⟨first',known',?_⟩
    rw [← equal,← applied.monos]
    exact young

/-- A renewal gives out a token of the chain. -/
theorem Authority.next_chain (distinct : Distinct world s')
    (nodup : (next.grants.map (·.token)).Nodup) {token operationId : String} {website : Option String}
    {r : GrantResponse}
    (request : entry.request = .renew token operationId website) (granted : answer = .granted r) :
    ∃ o o', origins p.log token = some o ∧
      originsAfter (origins p.log) ⟨p.opened,p.data,p.side,entry.request,answer,next,s'⟩ r.grant = some o' ∧
      o'.root = o.root ∧ r.delegationExpiresAt = o.value.delegationExpiresAt := by
  have did := applied.did
  have frame := applied.frame
  obtain ⟨here,mark⟩ := frame.result
  rw [request,granted] at did
  cases did with
  | @repeated _ _ _ _ renewal found next' _ _ usable quiet known same later reply =>
    have there := frame.sub.subset usable.member
    obtain ⟨o,o',old,new,chain⟩ := authority.renewed found.1 there renewal known
    obtain ⟨given,known',marked⟩ := authority.given next'.1 (frame.sub.subset later.member)
    rw [later.token,new] at known'
    cases known'
    rw [usable.token] at old
    refine ⟨o,o',old,originsAfter_known (by rw [reply.1]; exact new),chain,?_⟩
    obtain ⟨_,request₁,_,_,asked₁,_,_,_,ends₁,_⟩ := (authority.traced _ _ old).began
    obtain ⟨_,request₂,_,_,asked₂,_,_,_,ends₂,_⟩ := (authority.traced _ _ new).began
    rw [chain,asked₁] at asked₂
    cases asked₂
    rw [reply.2,marked.delegation,ends₁,ends₂]
  | @renewed _ _ _ _ value issued found _ usable new done reply =>
    obtain ⟨o,old,marked⟩ := authority.given found.1 (frame.sub.subset usable.member)
    rw [usable.token] at old
    have more : p.side.tokens < s'.tokens := by
      rw [applied.quiet.tokens,done.tokens,applied.tokens]; omega
    have drawn : r.grant = world.token p.side.tokens := by rw [reply.1,done.shape,← applied.tokens]
    have absent := authority.unknown distinct more
    have apart : token ≠ value.token := by
      rw [← reply.1,drawn]
      exact (authority.traced _ _ old).drawn.ne_next distinct more
    have member : value ∈ next.grants := by
      rw [mark]; exact done.renewed apart _
    have there : next.grant? r.grant = some value := by
      rw [reply.1]; exact grant?_of_mem nodup member
    refine ⟨o,⟨o.root,value⟩,old,?_,rfl,?_⟩
    · unfold originsAfter
      simp only [request,granted,if_true,there,old,Option.bind_some,Option.map_some]
      rw [drawn,absent]
      rfl
    · rw [reply.2,marked.delegation]

theorem Authority.no_origin (still : ¬ p.side.tokens < s'.tokens) (token : String) :
    origins (p.answered entry.request answer next s').log token = origins p.log token := by
  have did := applied.did
  rw [applied.quiet.tokens,← applied.tokens] at still
  rw [origins_concat]
  cases request : entry.request with
  | inspectGrant | reserve | revokeGrant => rfl
  | authorize identities request' =>
    rw [request] at did
    cases did with
    | authorised passage done => exact absurd done.gives.1.more still
  | renew prior operationId website =>
    rw [request] at did
    cases did with
    | @repeated _ _ _ response renewal found next' _ _ usable quiet known same later reply =>
      obtain ⟨o,o',old,new,_⟩ := authority.renewed found.1 (applied.frame.sub.subset usable.member) renewal known
      unfold originsAfter
      dsimp only
      split_ifs with own
      · rw [own,reply.1,new]; rfl
      · rfl
    | renewed usable new done reply =>
      rw [done.tokens] at still
      omega
/-- A request that draws a token gives it an origin, and no other. -/
theorem Authority.new_origin (distinct : Distinct world s')
    (kept : Keeps world (fun _ => False) p.side s') (nodup : (next.grants.map (·.token)).Nodup)
    (more : p.side.tokens < s'.tokens) : ∃ origin, origin.value ∈ next.grants ∧
      origin.value.token = world.token p.side.tokens ∧
      (∀ token, origins (p.answered entry.request answer next s').log token =
        if token = world.token p.side.tokens then some origin else origins p.log token) ∧
      Traced world (p.answered entry.request answer next s') (world.token p.side.tokens) origin := by
  have did := applied.did
  have frame := applied.frame
  obtain ⟨lies,mark⟩ := frame.result
  have absent := authority.unknown distinct more
  have onward := applied.onward kept
  have grown : s₁.tokens < s₂.tokens := by rw [← applied.quiet.tokens,applied.tokens]; exact more
  cases request : entry.request with
  | inspectGrant | reserve | revokeGrant =>
    rw [request] at did
    have quiet : Quiet s₁ s₂ := by cases did <;> assumption
    rw [quiet.tokens] at grown
    omega
  | authorize identities request' =>
    rw [request] at did
    cases did with
    | @authorised _ _ response _ _ passage done =>
      obtain ⟨gives,page,ends,_,expiry⟩ := done.gives
      have drawn : response.grant = world.token p.side.tokens := by rw [gives.grant,applied.tokens]
      have member : passage.value ∈ next.grants := by rw [mark]; exact gives.member
      have there : next.grant? (world.token p.side.tokens) = some passage.value := by
        rw [← drawn,← gives.token]; exact grant?_of_mem nodup member
      have known (token : String) :
          origins (p.answered (.authorize identities request') (.granted response) next s').log token =
          if token = world.token p.side.tokens then
            some ⟨⟨p.opened,p.data,p.side,.authorize identities request',.granted response,next,s'⟩,passage.value⟩
          else origins p.log token := by
        rw [origins_concat]
        unfold originsAfter
        dsimp only
        rw [drawn]
        split_ifs with own
        · rw [own,absent,there]; rfl
        · rfl
      have own : passage.value.token = world.token p.side.tokens := gives.token.trans drawn
      obtain ⟨b,holds⟩ := gives.account
      have holds' : Resolves next.accounts passage.value.accountId (passage.value.accountId,b) := by
        rw [mark]; exact .here holds
      refine ⟨_,member,own,known,⟨p.side.tokens,more,rfl⟩,own,by simp,Nat.le_refl _,identities,request',response,
        passage.value,rfl,rfl,?_,done.delegation,ends,page,⟨_,holds',payer_eq holds'⟩,?_⟩
      · rw [known,if_pos drawn]
      · intro _ e there'
        rw [← drawn] at there'
        exact ⟨e,there',rfl⟩
  | renew prior operationId website =>
    rw [request] at did
    cases did with
    | repeated usable quiet known same later reply =>
      rw [quiet.tokens] at grown
      omega
    | @renewed _ _ _ response value issued found _ usable new done reply =>
      have drawn : value.token = world.token p.side.tokens := by rw [done.shape,← applied.tokens]
      obtain ⟨o,old,marked⟩ := authority.given found.1 (frame.sub.subset usable.member)
      rw [usable.token] at old
      have traced := authority.traced _ _ old
      have apart : prior ≠ value.token := by
        rw [drawn]
        exact traced.drawn.ne_next distinct more
      have member : value ∈ next.grants := by
        rw [mark]; exact done.renewed apart _
      have there : next.grant? (world.token p.side.tokens) = some value := by
        rw [← drawn]; exact grant?_of_mem nodup member
      have known (token : String) :
          origins (p.answered (.renew prior operationId website) (.granted response) next s').log
          token = if token = world.token p.side.tokens then some ⟨o.root,value⟩ else origins p.log token := by
        rw [origins_concat]
        unfold originsAfter
        dsimp only
        rw [reply.1,drawn]
        split_ifs with own
        · rw [own,absent,old,Option.bind_some,there]; rfl
        · rfl
      have accounts : next.accounts = p.data.accounts := by
        rw [mark,← frame.accounts]
        change issued.accounts = _
        rw [done.issued]
      rw [request] at onward
      have later := traced.onward onward distinct
      obtain ⟨identities,request',response',first,asked,granted,known',fixed,ends,page,⟨owner,mine,same⟩,expiry⟩ :=
        later.began
      refine ⟨⟨o.root,value⟩,member,drawn,known,⟨p.side.tokens,more,rfl⟩,drawn,later.member,later.process,
        identities,request',response',first,asked,granted,known',fixed,?_,?_,?_,?_⟩
      · rw [done.shape,← ends]
        exact marked.delegation
      · rw [done.shape,← page]
        exact marked.pagePubkey
      · -- the new grant is on the account that the old one stands for
        have home := canonical_iff.mp usable.account
        rw [frame.accounts,← accounts,marked.accountId] at home
        have equal := mine.unique home
        subst equal
        rw [done.shape]
        exact ⟨_,.here mine.balance,same⟩
      · intro current e there'
        obtain ⟨_,delegation,expiries,prior'⟩ := done.expiries
        obtain ⟨e',known₁,equal⟩ := prior' prior rfl
        have current' : o.root.process = p.opened := current
        have before : p.side.expiries prior = some e' := by
          rcases applied.expiries prior with same | gone
          · rw [← same]; exact known₁
          · rw [gone] at known₁; cases known₁
        obtain ⟨_,_,response'',_,_,granted',_,_,_,_,_,fixed'⟩ := traced.began
        rw [granted] at granted'
        cases granted'
        obtain ⟨first',at₀,same'⟩ := fixed' current' e' before
        refine ⟨first',at₀,?_⟩
        change s'.expiries _ = _ at there'
        rw [applied.quiet.expiries,expiries,← drawn] at there'
        dsimp only at there'
        rw [if_pos rfl] at there'
        cases there'
        rw [← same',← equal]

theorem Authority.next_ended (distinct : Distinct world s') (valid : next.valid options)
    (more : p.side.tokens ≤ s'.tokens) {token : String}
    (ended : Ended world p.log ⟨p.opened,p.data,p.side,entry.request,answer,next,s'⟩ token) :
    Dead world (p.answered entry.request answer next s') token := by
  obtain ⟨origin,known,what⟩ := ended
  have traced := authority.traced _ _ known
  have did := applied.did
  have frame := applied.frame
  obtain ⟨here,mark⟩ := frame.result
  refine ⟨traced.drawn.later more,fun later member own => ?_⟩
  have given {grant : Grant} (there : grant ∈ base.grants) (same : grant.token = token) :
      Marked origin.value grant := by
    obtain ⟨o,known',marked⟩ := authority.given grant (frame.sub.subset there)
    rw [same,known] at known'
    cases known'
    exact marked
  change later ∈ next.grants at member
  rw [mark] at member
  change later ∈ result.grants at member
  cases request : entry.request with
  | inspectGrant | reserve | renew =>
    simp only [request] at what
  | revokeGrant own' =>
    simp only [request] at what
    rw [request] at did
    obtain ⟨o,known',same⟩ := what
    obtain ⟨page,ends,account⟩ := same.elim (traced.mates (authority.traced _ _ known')) id
    cases did with
    | @revoked _ found _ usable quiet resolved =>
      obtain ⟨grant,there,same⟩ := List.mem_map.mp member
      have marked := Marked.revokes same
      have mine := given there (marked.token.symm.trans own)
      obtain ⟨o',known₁,marked'⟩ := authority.given found.1 (frame.sub.subset usable.member)
      rw [usable.token,known'] at known₁
      cases known₁
      have home := canonical_iff.mp usable.account
      rw [frame.accounts] at home
      rw [← marked'.accountId,payer_eq home] at account
      obtain ⟨owner,found',here'⟩ := Option.map_eq_some_iff.mp account
      have selected : (canonical base grant.accountId).any (·.1 = found.2.1) = true := by
        rw [canonical_congr frame.accounts,mine.accountId]
        change Option.any _ (canonicalFrom _ _ _) = true
        rw [found']
        simpa using here'
      rw [← same,if_pos]
      rw [selected]
      simp [mine.pagePubkey,mine.delegation,page,ends,marked'.pagePubkey,marked'.delegation]
  | authorize identities request' =>
    simp only [request] at what
    rw [request] at did
    obtain ⟨ending,identity,there,asked,account⟩ := what
    cases did with
    | @authorised _ _ response _ _ passage done =>
      obtain ⟨f,follows,mine,theirs⟩ := done.follows
      have ids := valid.2.1.2.1
      rw [mark] at ids
      change (result.identities.map (·.id)).Nodup at ids
      rw [done.same_identities] at ids
      -- the identity is one of those enrolled, and its account becomes the survivor
      obtain ⟨owner,home,survivor⟩ := done.home (by rw [frame.identities]; exact there) ids
        (by rw [frame.secret]; exact asked) mine theirs
      obtain ⟨grants,adjusted,drawn⟩ := done.grants
      rw [grants] at member
      rcases List.mem_append.mp member with old | new
      · rw [done.revoked,if_pos ending] at old
        obtain ⟨grant,there',same⟩ := List.mem_map.mp old
        rw [adjusted] at there'
        have marked := Marked.revokes same
        have mine' := given there' (marked.token.symm.trans own)
        obtain ⟨_,_,_,_,_,_,_,_,_,_,⟨mineOwner,resolves,_⟩,_⟩ := traced.began
        obtain ⟨fresh,added,_⟩ := done.enrolled.accounts
        have enrolled : Resolves passage.enrolled.accounts origin.value.accountId mineOwner := by
          rw [added,frame.accounts]; exact resolves.append
        have equal : owner.1 = mineOwner.1 := by
          rw [payer_eq resolves] at account
          obtain ⟨owner',found',here'⟩ := Option.map_eq_some_iff.mp account.symm
          have also : Resolves passage.enrolled.accounts identity.accountId owner' := by
            rw [added,frame.accounts]; exact (canonicalFrom_resolves _ found').append
          rw [(canonical_iff.mp home).unique also]
          exact here'
        obtain ⟨final,resolves',here'⟩ := follows _ _ enrolled
        have accounts : result.accounts = (passage.adjusted request').2.accounts := by
          rw [done.issued.issued]
          change passage.revoked.accounts = _
          rw [done.revoked,if_pos ending]
          rfl
        have selected : canonical (passage.adjusted request').2 grant.accountId = some final := by
          rw [mine'.accountId]
          refine canonical_iff.mpr ?_
          rw [← accounts]
          exact resolves'
        rw [← same,if_pos]
        rw [selected]
        simp [here',← equal,survivor]
      · rw [List.mem_singleton.mp new,drawn,applied.tokens] at own
        have fresh : p.side.tokens < s'.tokens := by
          rw [applied.quiet.tokens,← applied.tokens]; exact done.gives.1.more
        exact absurd own.symm (traced.drawn.ne_next distinct fresh)

end

theorem Authority.answered (authority : Authority world options p) (distinct : Distinct world s')
    (done : apply world options entry p.data p.side = (.ok (answer,next),s')) :
    Authority world options (p.answered entry.request answer next s') := by
  obtain ⟨valid,drawn⟩ := authority.sound.answered done
  have kept : Keeps world (fun _ => False) p.side s' := by
    have kept : Keeps world (fun _ => False) p.side (apply world options entry p.data p.side).2 := apply_kept entry _ _
    rwa [done] at kept
  obtain ⟨base,result,s₁,s₂,applied⟩ := apply_ok done
  have frame := applied.frame
  have nodup := valid.2.1.2.2.1
  obtain ⟨here,mark⟩ := frame.result
  have onward := applied.onward kept
  have given : ∀ later ∈ next.grants, ∃ origin, origins (p.answered entry.request answer next s').log later.token =
      some origin ∧ Marked origin.value later := by
    intro later member
    rcases frame.moved.grants later member with ⟨grant,there,marked⟩ | ⟨token,more⟩
    · obtain ⟨origin,known,marked'⟩ := authority.given grant there
      rw [marked.token]
      exact ⟨origin,onward.known _ _ known,marked'.trans marked⟩
    · obtain ⟨origin,member',own,known,_⟩ := authority.new_origin applied distinct kept nodup more
      refine ⟨origin,by rw [known,if_pos token],?_⟩
      rw [List.inj_on_of_nodup_map nodup member' member (own.trans token.symm)]
      exact Marked.refl later
  have traced : ∀ token origin, origins (p.answered entry.request answer next s').log token = some origin →
      Traced world (p.answered entry.request answer next s') token origin := by
    intro token origin known
    by_cases more : p.side.tokens < s'.tokens
    · obtain ⟨origin',_,_,known',traced⟩ := authority.new_origin applied distinct kept nodup more
      rw [known'] at known
      split_ifs at known with own
      · rw [own]
        cases known
        exact traced
      · exact (authority.traced _ _ known).onward onward distinct
    · rw [authority.no_origin applied more] at known
      exact (authority.traced _ _ known).onward onward distinct
  have chain {token operationId : String} {website : Option String} {r : GrantResponse}
      (request : entry.request = .renew token operationId website) (granted : answer = .granted r) :
      ∃ o o', origins (p.answered entry.request answer next s').log token = some o ∧
        origins (p.answered entry.request answer next s').log r.grant = some o' ∧ o'.root = o.root ∧
        r.delegationExpiresAt = o.value.delegationExpiresAt := by
    obtain ⟨o,o',old,new,root,ends⟩ := authority.next_chain applied distinct nodup request granted
    refine ⟨o,o',onward.known _ _ old,?_,root,ends⟩
    rw [origins_concat]
    exact new
  refine ⟨⟨valid,drawn⟩,given,traced,?_,?_,?_,?_,?_,?_⟩
  · intro later member renewal had
    have there : later ∈ result.grants := by
      change later ∈ next.grants at member
      rwa [mark] at member
    rcases applied.did.renewals there had with ⟨grant,before,token,had'⟩ | ⟨operationId,website,r,request,granted,rfl⟩
    · obtain ⟨o,o',old,new,root⟩ := authority.renewed grant (frame.sub.subset before) renewal had'
      rw [token] at old
      exact ⟨o,o',onward.known _ _ old,onward.known _ _ new,root⟩
    · obtain ⟨o,o',old,new,root,_⟩ := chain request granted
      exact ⟨o,o',old,new,root⟩
  · intro h member token operationId website r request granted
    rcases List.mem_append.mp member with old | new
    · obtain ⟨was,points⟩ := authority.successor h old token operationId website r request granted
      refine ⟨was.later onward.tokens,fun later there own => ?_⟩
      rcases frame.moved.grants later there with ⟨grant,before,marked⟩ | ⟨fresh,more⟩
      · exact marked.renewal _ (points grant before (marked.token.symm.trans own))
      · exact absurd (own.symm.trans fresh) (was.ne_next distinct more)
    · rw [List.mem_singleton.mp new] at request granted
      dsimp only at request granted
      have did := applied.did
      rw [request,granted] at did
      obtain ⟨o,_,known,_⟩ := chain request granted
      refine ⟨(traced _ _ known).drawn,fun later there own => ?_⟩
      change later ∈ next.grants at there
      rw [mark] at there nodup
      exact did.successor nodup there own
  · -- the new renewal found the successor that the earlier one left
    have again : ∀ h ∈ p.log, ∀ token operationId website r operationId' website' r',
        h.request = .renew token operationId website → h.answer = .granted r →
        entry.request = .renew token operationId' website' → answer = .granted r' →
          operationId = operationId' ∧ r.grant = r'.grant := by
      intro h member token operationId website r operationId' website' r' request granted request' granted'
      obtain ⟨_,points⟩ := authority.successor h member token operationId website r request granted
      have did := applied.did
      rw [request',granted'] at did
      cases did with
      | repeated usable quiet known same later reply =>
        rw [points _ (frame.sub.subset usable.member) usable.token,Option.some.injEq] at known
        rw [← known] at same reply
        exact ⟨same,reply.1.symm⟩
      | renewed usable new done reply =>
        rw [points _ (frame.sub.subset usable.member) usable.token] at new
        cases new
    intro h member h' member' token operationId website r operationId' website' r' request granted request' granted'
    rcases List.mem_append.mp member with old | new <;> rcases List.mem_append.mp member' with old' | new'
    · exact authority.unique h old h' old' _ _ _ _ _ _ _ request granted request' granted'
    · rw [List.mem_singleton.mp new'] at request' granted'
      exact again h old _ _ _ _ _ _ _ request granted request' granted'
    · rw [List.mem_singleton.mp new] at request granted
      obtain ⟨same,same'⟩ := again h' old' _ _ _ _ _ _ _ request' granted' request granted
      exact ⟨same.symm,same'.symm⟩
    · rw [List.mem_singleton.mp new] at request granted
      rw [List.mem_singleton.mp new'] at request' granted'
      rw [request] at request'
      rw [granted] at granted'
      cases request'
      cases granted'
      exact ⟨rfl,rfl⟩
  · intro h member token operationId website r request granted
    rcases List.mem_append.mp member with old | new
    · obtain ⟨o,o',old,new,root,ends⟩ := authority.chains h old token operationId website r request granted
      exact ⟨o,o',onward.known _ _ old,onward.known _ _ new,root,ends⟩
    · rw [List.mem_singleton.mp new] at request granted
      exact chain request granted
  · exact log_concat authority.timely (authority.next_timely applied)
  · intro earlier h later same token ended
    rcases log_split same with ⟨more,split,rest⟩ | ⟨rfl,rfl,rfl⟩
    · obtain ⟨dead,unused⟩ := authority.ended earlier h more split token ended
      refine ⟨dead.onward frame.moved distinct,fun use member => ?_⟩
      rw [rest] at member
      rcases List.mem_append.mp member with old | new
      · exact unused use old
      · rw [List.mem_singleton.mp new]
        intro own
        obtain ⟨found,usable⟩ := applied.did.usable own
        have revoked := dead.revoked found.1 (frame.sub.subset usable.member) usable.token
        rw [usable.unrevoked] at revoked
        cases revoked
    · exact ⟨authority.next_ended applied distinct valid onward.tokens ended,by simp⟩
end

theorem Authority.step {p : Process} (step : Step) (distinct : Distinct world (p.step world options step).side)
    (authority : Authority world options p) : Authority world options (p.step world options step) := by
  have kinds : Rests world p (p.step world options step) ∨ _ := step_cases p step
  rcases kinds with rests | ⟨entry,answer,next,s',done,same⟩
  · have sound := authority.sound.step step
    have onward := rests.onward
    obtain ⟨log,⟨here,data⟩,tokens,_⟩ := rests
    refine ⟨sound,?_,?_,?_,?_,?_,?_,?_,?_⟩
    · rw [log,data]; exact authority.given
    · rw [log]; exact fun token origin known => (authority.traced _ _ known).onward onward distinct
    · rw [log,data]; exact authority.renewed
    · rw [log,data]
      intro h member token operationId website r request granted
      obtain ⟨drawn,points⟩ := authority.successor h member token operationId website r request granted
      exact ⟨drawn.later tokens,points⟩
    · rw [log]; exact authority.unique
    · rw [log]; exact authority.chains
    · rw [log]; exact authority.timely
    · rw [log]
      intro earlier h later same token ended
      obtain ⟨dead,unused⟩ := authority.ended earlier h later same token ended
      refine ⟨dead.onward ?_ distinct,unused⟩
      rw [data]
      exact Moved.refl tokens _
  · rw [same] at distinct ⊢
    exact authority.answered distinct done
theorem fresh_authority (secret : String) (moment : Int) (side : Side) :
    Authority world options (fresh secret moment side) := by
  refine ⟨fresh_sound secret moment side,?_,?_,?_,?_,?_,?_,?_,?_⟩ <;> simp [fresh,emptyData,origins]

/-- Over every run of the ledger, whatever its clocks read and its processes lose: a
    token obtained by renewal has the chain of the one renewed and ends with it, and
    its grant ends when the authorisation said; a request is answered under a token
    only before that end, and, in the process of the authorisation, before the
    monotonic end fixed there; a token is renewed by one operation to one successor;
    and what a revocation, a link or new settings end is never used again. -/
theorem authority_ends (world : World) (options : Options) (secret : String) (moment : Int) (side : Side)
    (steps : List Step) (distinct : Distinct world ((fresh secret moment side).run world options steps).side) :
    let p := (fresh secret moment side).run world options steps
    (∀ h ∈ p.log, ∀ token operationId website r, h.request = .renew token operationId website → h.answer = .granted r →
      ∃ o o', origins p.log token = some o ∧ origins p.log r.grant = some o' ∧ o'.root = o.root ∧
        r.delegationExpiresAt = o.value.delegationExpiresAt) ∧
    (∀ token origin, origins p.log token = some origin → ∃ identities request r,
      origin.root.request = .authorize identities request ∧ origin.root.answer = .granted r ∧
      origin.value.delegationExpiresAt = request.delegationExpiresAt ∧
      ∀ grant ∈ p.data.grants, grant.token = token → grant.delegationExpiresAt = request.delegationExpiresAt) ∧
    (∀ earlier h later, p.log = earlier ++ h :: later → Timely world earlier h) ∧
    (∀ h ∈ p.log, ∀ h' ∈ p.log, ∀ token operationId website r operationId' website' r',
      h.request = .renew token operationId website → h.answer = .granted r →
      h'.request = .renew token operationId' website' → h'.answer = .granted r' →
        operationId = operationId' ∧ r.grant = r'.grant) ∧
    ∀ earlier h later, p.log = earlier ++ h :: later → ∀ token, Ended world earlier h token →
      ∀ use ∈ later, use.request.token ≠ some token := by
  intro p
  have authority : Authority world options p :=
    distinct_run_invariant (fun _ step distinct authority => Authority.step step distinct authority) steps distinct
      (fresh_authority secret moment side)
  refine ⟨authority.chains,fun token origin known => ?_,authority.timely,authority.unique,
    fun earlier h later same token ended => (authority.ended earlier h later same token ended).2⟩
  obtain ⟨identities,request,r,_,asked,granted,_,_,ends,_⟩ := (authority.traced _ _ known).began
  refine ⟨identities,request,r,asked,granted,ends,fun grant member own => ?_⟩
  obtain ⟨origin',known',marked⟩ := authority.given grant member
  rw [own,known] at known'
  cases known'
  rw [marked.delegation,ends]

end

/-- A viewer renews a grant, disconnects, and uses a grant asked for later. -/
def disconnectRequests : List Request := [asked [viewer] none,.renew (digits 64 0) (digits 32 0) none,
  .revokeGrant (digits 64 1),asked [viewer] none,.inspectGrant (digits 64 2)]
theorem authority_ends_disconnect : Distinct steadyWorld (steadyRun disconnectRequests).side ∧
    (steadyRun disconnectRequests).log.length = 5 ∧
    ∀ earlier h later, (steadyRun disconnectRequests).log = earlier ++ h :: later →
      ∀ token, Ended steadyWorld earlier h token → ∀ use ∈ later, use.request.token ≠ some token := by
  have distinct : Distinct steadyWorld (steadyRun disconnectRequests).side := by
    have drawn : (steadyRun disconnectRequests).side.tokens = 3 := by decide +kernel
    unfold Distinct
    rw [drawn]
    have apart : ∀ m < 3, ∀ n < 3, steadyWorld.token m = steadyWorld.token n → m = n := by decide +kernel
    exact fun m low n low' same => apart m low n low' same
  exact ⟨distinct,by decide +kernel,(authority_ends _ _ _ _ _ _ distinct).2.2.2.2⟩

end RelaySwarm.Ledger
