import RelaySwarm.LedgerBook
import RelaySwarm.LedgerGrants

/-!
Uploads are charged at most once, and what accounts have spent is what was charged
(`spend_conserved`). The decisions and the book are read off the log of a run; a
repeated reservation finds its decision in the state as long as its grant is there,
and a grant that was pruned never comes back.
-/
namespace RelaySwarm.Ledger
open Effect

variable {before : List Account} {account : String × Balance} {data : Data} {identities : List Verified} {s s' : Side}
  {p : Passage}
/-- The account a token was granted on. -/
def Data.holder (data : Data) (token : String) : Option String :=
  (data.grants.find? (·.token = token)).map (·.accountId)
/-- An authorisation that resets the spend of its account. -/
def Request.resets : Request → Bool
  | .authorize _ request => request.settings.any (·.reset)
  | _ => false
/-- The first decision on a pair of a token and an operation. -/
def decisionOf (request : Request) (answer : Answer) : Option Decision :=
  match request,answer with
  | .reserve token operationId bytes,.reserved r =>
    if r.duplicate then none else some ⟨token,operationId,bytes,r.accepted⟩
  | _,_ => none
def decisions (log : List Happening) : List Decision := log.filterMap (fun h => decisionOf h.request h.answer)
/-- The charges left after a request: an accepted new one comes in, and a reset takes
    out those of the account it resets. -/
def bookAfter (book : List Charge) (request : Request) (answer : Answer) (after : Data) : List Charge :=
  match request,answer with
  | .reserve token operationId bytes,.reserved r =>
    match after.holder token with
    | some account => if r.accepted ∧ r.duplicate = false then book ++ [⟨token,operationId,account,bytes⟩] else book
    | none => book
  | .authorize identities request,.granted r =>
    if (Request.authorize identities request).resets then book.filter (fun charge =>
      payer after.accounts charge.account ≠ (after.holder r.grant).bind (payer after.accounts)) else book
  | _,_ => book
/-- The charges since the last resets of their accounts. -/
def book (log : List Happening) : List Charge :=
  log.foldl (fun book h => bookAfter book h.request h.answer h.after) []

section
variable {world : World} {options : Options}

@[simp] theorem setHolding_accounts (data : Data) (id : String) (h : Holding) :
    (data.setHolding id h).accounts = replaceHolding id h data.accounts := rfl
@[simp] theorem setHolding_grants (data : Data) (id : String) (h : Holding) :
    (data.setHolding id h).grants = data.grants := rfl
@[simp] theorem revokedWhere_accounts (data : Data) (account : String) (selected : Grant → Bool) :
    (revokedWhere data account selected).accounts = data.accounts := rfl

/-! ### The accounts after a request -/

/-- A list of accounts after a request to an account: it has a balance, and every
    other balance is as before or new and unspent. -/
structure Touched (before after : List Account) (account : String × Balance) : Prop where
  mine : held after account.1 = some (.balance account.2)
  others : ∀ id b, id ≠ account.1 → held after id = some (.balance b) →
    held before id = some (.balance b) ∨ held before id = none ∧ b.spent = 0
theorem Touched.replace {before after : List Account} (touched : Touched before after account)
    (b : Balance) : Touched before (replaceHolding account.1 (.balance b) after) (account.1,b) := by
  have known := held_known touched.mine
  refine ⟨by rw [held_replace known,if_pos rfl],fun id b' apart there => ?_⟩
  rw [held_replace known,if_neg apart] at there
  exact touched.others id b' apart there

theorem Linked.touched {other : Option (String × Balance)}
    {linked : (String × Balance) × Data} (links : Linked data account other linked)
    (touched : Touched before data.accounts account) : Touched before linked.2.accounts linked.1 := by
  cases links with
  | none => exact touched
  | alone same => exact touched.replace _
  | @takes other apart theirs =>
    have moved := touched.replace (account.2.linked other.2)
    have known :
        other.1 ∈ (replaceHolding account.1 (.balance (account.2.linked other.2)) data.accounts).map (·.id) := by
      rw [replaceHolding_ids]; exact held_known theirs
    refine ⟨?_,fun id b aside there => ?_⟩
    · simp only [setHolding_accounts]
      rw [held_replace known,if_neg (Ne.symm apart)]
      exact moved.mine
    · simp only [setHolding_accounts] at there
      rw [held_replace known] at there
      by_cases gone : id = other.1
      · rw [if_pos gone] at there
        cases there
      · rw [if_neg gone] at there
        exact moved.others id b aside there
theorem Linked.balanced {other : Option (String × Balance)}
    {linked : (String × Balance) × Data} (links : Linked data account other linked) {book : List Charge}
    (mine : held data.accounts account.1 = some (.balance account.2)) (balanced : Balanced data.accounts book) :
    Balanced linked.2.accounts book := by
  cases links with
  | none => exact balanced
  | alone same =>
    refine balanced.unspent mine ?_ (held_replace (held_known mine) _)
    rfl
  | @takes other apart theirs =>
    have after (id : String) : held (replaceHolding other.1 (.aliasTo account.1)
        (replaceHolding account.1 (.balance (account.2.linked other.2)) data.accounts)) id =
        if id = other.1 then some (.aliasTo account.1)
          else if id = account.1 then some (.balance (account.2.linked other.2)) else held data.accounts id := by
      rw [held_replace (by rw [replaceHolding_ids]; exact held_known theirs),held_replace (held_known mine)]
    exact balanced.linked apart mine theirs rfl after
theorem applySettings_touched {linked : (String × Balance) × Data} (settings : Option Settings)
    (touched : Touched before linked.2.accounts linked.1) :
    Touched before (applySettings linked settings).2.accounts (applySettings linked settings).1 := by
  cases settings with
  | none => exact touched
  | some settings => exact touched.replace _
theorem applySettings_balanced {linked : (String × Balance) × Data} (settings : Option Settings) {book : List Charge}
    (mine : held linked.2.accounts linked.1.1 = some (.balance linked.1.2))
    (balanced : Balanced linked.2.accounts book) :
    Balanced (applySettings linked settings).2.accounts (if settings.any (·.reset) = true
      then book.filter (fun charge =>
      payer (applySettings linked settings).2.accounts charge.account ≠ some linked.1.1) else book) := by
  cases settings with
  | none => exact balanced
  | some settings =>
    have after := held_replace (held_known mine) (.balance (linked.1.2.adjusted settings))
    cases reset : settings.reset with
    | true =>
      rw [if_pos (by simpa using reset)]
      exact balanced.reset mine (by simp [Balance.adjusted,reset]) after
    | false =>
      rw [if_neg (by simp [reset])]
      exact balanced.unspent mine (by simp [Balance.adjusted,reset]) after

theorem Authorised.touched {data after : Data} {request : Authorisation}
    {response : GrantResponse} (done : Authorised world options data identities request s response after s' p) :
    Touched data.accounts p.linked.2.accounts p.linked.1 ∧
      Touched data.accounts after.accounts (p.adjusted request).1 := by
  obtain ⟨fresh,added,new⟩ := done.enrolled.accounts
  obtain ⟨first,_,owner⟩ := done.first
  have enrolled : Touched data.accounts p.enrolled.accounts p.account := by
    refine ⟨(canonical_iff.mp owner).balance,fun id b _ there => ?_⟩
    rw [added] at there
    cases old : held data.accounts id with
    | some h =>
      rw [held_append old] at there
      exact .inl there
    | none =>
      refine .inr ⟨rfl,?_⟩
      unfold held at old there
      rw [Option.map_eq_none_iff] at old
      rw [List.find?_append,old,Option.none_or] at there
      obtain ⟨account,seen,holding⟩ := Option.map_eq_some_iff.mp there
      rw [new account (List.mem_of_find?_eq_some seen)] at holding
      cases holding
      rfl
  have linked := done.linked.touched enrolled
  have adjusted := applySettings_touched request.settings linked
  refine ⟨linked,?_⟩
  have same : after.accounts = (p.adjusted request).2.accounts := by
    rw [done.issued.issued]
    change p.revoked.accounts = _
    rw [done.revoked]
    split_ifs <;> rfl
  rw [same]
  exact adjusted
theorem Authorised.value {data after : Data} {request : Authorisation}
    {response : GrantResponse} (done : Authorised world options data identities request s response after s' p)
    (distinct : (after.grants.map (·.token)).Nodup) : after.holder response.grant = some (p.adjusted request).1.1 := by
  have grants : after.grants = p.revoked.grants ++ [p.value] := by rw [done.issued.issued]
  have absent : p.revoked.grants.find? (·.token = response.grant) = none := by
    rw [List.find?_eq_none]
    intro grant member same
    rw [grants,List.map_append] at distinct
    refine (List.disjoint_of_nodup_append distinct) (List.mem_map.mpr ⟨grant,member,rfl⟩) ?_
    have same' : grant.token = p.value.token := by rw [← done.grant]; simpa using same
    simp [same']
  unfold Data.holder
  rw [grants,List.find?_append,absent]
  have own : p.value.token = response.grant := done.grant.symm
  simp only [List.find?_cons,own,decide_true,Option.none_or,Option.map_some,Option.some.injEq]
  rw [done.issued.shape]

theorem Did.balanced {data after : Data} {request : Request} {answer : Answer} {book : List Charge}
    (did : Did world options data s request answer after s') (distinct : (after.grants.map (·.token)).Nodup)
    (balanced : Balanced data.accounts book) : Balanced after.accounts (bookAfter book request answer after) := by
  cases did with
  | @authorised identities request response after s' p done =>
    obtain ⟨fresh,added,new⟩ := done.enrolled.accounts
    obtain ⟨first,_,owner⟩ := done.first
    have enrolled : Balanced p.enrolled.accounts book := by
      rw [added]
      exact balanced.opened fun account member => ⟨_,new account member,rfl⟩
    have linked := done.linked.balanced (canonical_iff.mp owner).balance enrolled
    have adjusted := applySettings_balanced request.settings done.touched.1.mine linked
    have same : after.accounts = (p.adjusted request).2.accounts := by
      rw [done.issued.issued]
      change p.revoked.accounts = _
      rw [done.revoked]
      split_ifs <;> rfl
    have name : (p.adjusted request).1.1 = p.linked.1.1 := by
      unfold Passage.adjusted applySettings
      cases request.settings <;> rfl
    have own : (after.holder response.grant).bind (payer after.accounts) = some p.linked.1.1 := by
      rw [done.value distinct,Option.bind_some,payer_eq (.here done.touched.2.mine),name]
    simp only [bookAfter,own,Request.resets]
    rw [same]
    exact adjusted
  | inspected => exact balanced
  | @duplicate token operationId bytes reservation previous found s' usable quiet known agrees answer =>
    simp only [bookAfter]
    cases data.holder token with
    | none => exact balanced
    | some account => simpa [answer.2] using balanced
  | @decided token operationId bytes reservation found s' usable quiet new positive answer =>
    have mine := canonical_iff.mp usable.account
    have holder : (record data found.2 (decide' token operationId bytes found.2.2)).2.holder token =
        some found.1.accountId := by
      unfold Data.holder record
      simp only [setHolding_grants,usable.seen,Option.map_some]
    simp only [bookAfter,holder,answer.1,answer.2,and_true]
    have after (b : Balance) := held_replace (held_known mine.balance) (.balance b)
    by_cases fits : bytes ≤ max 0 (found.2.2.limit - found.2.2.spent)
    · rw [if_pos (by simpa using fits)]
      have cost : (record data found.2 (decide' token operationId bytes found.2.2)).2.accounts =
          replaceHolding found.2.1 (.balance { found.2.2 with spent := found.2.2.spent + bytes }) data.accounts := by
        simp [record,decide',fits]
      rw [cost]
      refine balanced.charged mine ?_ (after _)
      rfl
    · rw [if_neg (by simpa using fits)]
      have cost : (record data found.2 (decide' token operationId bytes found.2.2)).2.accounts =
          replaceHolding found.2.1 (.balance found.2.2) data.accounts := by
        simp [record,decide',fits]
      rw [cost]
      exact balanced.unspent mine.balance rfl (after _)
  | repeated => exact balanced
  | @renewed token operationId website response value issued found s' usable new done answer =>
    rw [done.issued]
    exact balanced
  | revoked => exact balanced

/-! ### Decisions -/

theorem Did.operations {data after : Data} {request : Request} {answer : Answer}
    (did : Did world options data s request answer after s') :
    after.operations = data.operations ++ (decisionOf request answer).toList := by
  cases did with
  | @authorised identities request response after s' p done =>
    have links := done.linked
    generalize linkedTo p.enrolled p.records request.link = other at links
    have linked : p.linked.2.operations = p.enrolled.operations := by
      generalize p.linked = linked at links
      cases links <;> rfl
    have adjusted : (p.adjusted request).2.operations = p.linked.2.operations := by
      unfold Passage.adjusted applySettings
      cases request.settings <;> rfl
    have revoked : p.revoked.operations = (p.adjusted request).2.operations := by
      rw [done.revoked]
      split_ifs <;> rfl
    rw [done.issued.issued]
    simp [decisionOf,revoked,adjusted,linked,done.enrolled.operations]
  | inspected => simp [decisionOf]
  | duplicate usable quiet known same answer => simp [decisionOf,answer.2]
  | decided usable quiet new positive answer => simp [decisionOf,record,decide',answer.1,answer.2]
  | repeated => simp [decisionOf]
  | renewed usable new done answer => rw [done.issued]; simp [decisionOf]
  | revoked => simp [decisionOf,revokedWhere]
theorem decision_known {token operationId : String} {d : Decision}
    (known : data.decision token operationId = some d) :
    d ∈ data.operations ∧ d.grant = token ∧ d.operationId = operationId :=
  ⟨List.mem_of_find?_eq_some known,by simpa using List.find?_some known⟩
theorem decision_new {token operationId : String} (new : data.decision token operationId = none)
    {d : Decision} (member : d ∈ data.operations) (grant : d.grant = token) : d.operationId ≠ operationId := by
  unfold Data.decision at new
  rw [List.find?_eq_none] at new
  simpa [grant] using new d member

/-- Linking the accounts of two identities: the first one has spent what both had,
    within the lower limit, unless settings of the same request say otherwise, and the
    second one is an alias of it. -/
def LinkedFairly (world : World) (options : Options) (before after : Data) (identities : List Verified)
    (settings : Option Settings) : Prop :=
  ∃ (base enrolled : Data) (first second : Identity) (one two : String × Balance), Pruned before base ∧
    Enrolled options base enrolled ∧ first ∈ enrolled.identities ∧ second ∈ enrolled.identities ∧
    identities.map (world.digest before.secret) = [first.id,second.id] ∧
    canonical enrolled first.accountId = some one ∧ canonical enrolled second.accountId = some two ∧
    (two.1 ≠ one.1 → held after.accounts two.1 = some (.aliasTo one.1) ∧
      ∃ b, held after.accounts one.1 = some (.balance b) ∧
        b.spent = (if settings.any (·.reset) then 0 else one.2.spent + two.2.spent) ∧
        b.limit = (settings.map (·.limit)).getD (min one.2.limit two.2.limit))

/-- What the answer to a request owes to the requests answered before it. -/
structure Fair (world : World) (options : Options) (earlier : List Happening) (h : Happening) : Prop where
  /-- A pair decided before gets the same decision again. -/
  again : ∀ token operationId bytes r, h.request = .reserve token operationId bytes → h.answer = .reserved r →
    ∀ d ∈ decisions earlier, d.grant = token → d.operationId = operationId →
      d.bytes = bytes ∧ r.accepted = d.accepted ∧ r.duplicate = true
  /-- A repeated reservation prunes and moves the clock mark, and changes nothing else. -/
  duplicate : ∀ token operationId bytes r, h.request = .reserve token operationId bytes → h.answer = .reserved r →
    r.duplicate = true → ∃ pruned here, Pruned h.before pruned ∧ h.after = { pruned with lastWall := here }
  /-- A new accepted reservation is charged to the balance its token spends from, and
      fits its limit. -/
  limited : ∀ token operationId bytes r, h.request = .reserve token operationId bytes → h.answer = .reserved r →
    r.duplicate = false → r.accepted = true → ∃ account owner b, h.before.holder token = some account ∧
      canonical h.before account = some (owner,b) ∧ b.spent + bytes ≤ b.limit ∧
      held h.after.accounts owner = some (.balance { b with spent := b.spent + bytes })
  linked : ∀ identities request r, h.request = .authorize identities request → h.answer = .granted r →
    request.link = true → LinkedFairly world options h.before h.after identities request.settings
  /-- Only a reset lowers what was spent in all. -/
  raised : h.request.resets = false → totalSpent h.before.accounts ≤ totalSpent h.after.accounts
  /-- A reset clears the spend of its account, and no other balance changes. -/
  reset : ∀ r, h.request.resets = true → h.answer = .granted r → ∃ account b, h.after.holder r.grant = some account ∧
    held h.after.accounts account = some (.balance b) ∧ b.spent = 0 ∧
    ∀ id b, id ≠ account → held h.after.accounts id = some (.balance b) →
      held h.before.accounts id = some (.balance b) ∨ held h.before.accounts id = none ∧ b.spent = 0

def Data.grant? (data : Data) (token : String) : Option Grant := data.grants.find? (·.token = token)
theorem grant?_of_mem (distinct : (data.grants.map (·.token)).Nodup) {grant : Grant}
    (member : grant ∈ data.grants) : data.grant? grant.token = some grant := by
  unfold Data.grant?
  cases seen : data.grants.find? (·.token = grant.token) with
  | none => exact absurd (List.find?_eq_none.mp seen grant member) (by simp)
  | some found =>
    have same : found.token = grant.token := by simpa using List.find?_some seen
    rw [List.inj_on_of_nodup_map distinct (List.mem_of_find?_eq_some seen) member same]
theorem holder_of_mem (distinct : (data.grants.map (·.token)).Nodup) {grant : Grant}
    (member : grant ∈ data.grants) : data.holder grant.token = some grant.accountId := by
  show (data.grant? grant.token).map (·.accountId) = _
  rw [grant?_of_mem distinct member]
  rfl
theorem canonical_congr {data other : Data} (same : other.accounts = data.accounts) (id : String) :
    canonical other id = canonical data id := by
  unfold canonical
  rw [same]

theorem Did.raised {data after : Data} {request : Request} {answer : Answer}
    (did : Did world options data s request answer after s') (keeps : request.resets = false) (book : List Charge) :
    (book.map (·.bytes)).sum ≤ ((bookAfter book request answer after).map (·.bytes)).sum := by
  cases did with
  | authorised p done => simp only [bookAfter,keeps,Bool.false_eq_true,if_false,le_refl]
  | inspected | repeated | renewed | revoked => exact le_refl _
  | duplicate usable quiet known same answer =>
    simp only [bookAfter,answer.2]
    split <;> simp
  | decided usable quiet new positive answer =>
    simp only [bookAfter]
    split
    · split_ifs
      · simp only [List.map_append,List.sum_append,List.map_cons,List.map_nil,List.sum_singleton]
        omega
      · exact le_refl _
    · exact le_refl _
theorem Authorised.linkedFairly {before base after : Data} {request : Authorisation}
    {response : GrantResponse} (pruned : Pruned before base)
    (done : Authorised world options base identities request s response after s' p) (link : request.link = true) :
    LinkedFairly world options before after identities request.settings := by
  have length : p.records.length = 2 := by
    have same := congrArg List.length done.records
    simp only [List.length_map] at same
    rw [same,done.pair link]
  obtain ⟨first,second,records⟩ := List.length_eq_two.mp length
  obtain ⟨first',head,owner⟩ := done.first
  have asked := done.asked link
  have links := done.linked
  simp only [records,List.head?_cons,Option.some.injEq] at head
  subst head
  simp only [linkedTo,link,if_true,records,List.getElem?_cons_succ,List.getElem?_cons_zero,Option.bind_some]
    at asked links
  obtain ⟨two,found⟩ := Option.isSome_iff_exists.mp asked
  rw [found] at links
  refine ⟨base,p.enrolled,first,second,p.account,two,pruned,done.enrolled,done.known _ (by simp [records]),
    done.known _ (by simp [records]),?_,owner,found,fun apart => ?_⟩
  · have ids := done.records
    rw [records,pruned.secret] at ids
    exact ids.symm
  have same : after.accounts = (p.adjusted request).2.accounts := by
    rw [done.issued.issued]
    change p.revoked.accounts = _
    rw [done.revoked]
    split_ifs <;> rfl
  have mine := done.touched.2.mine
  have linked : p.linked = ((p.account.1,p.account.2.linked two.2),
      (p.enrolled.setHolding p.account.1 (.balance (p.account.2.linked two.2))).setHolding two.1
        (.aliasTo p.account.1)) := by
    generalize p.linked = linked at links ⊢
    cases links with
    | alone same => exact absurd same apart
    | takes _ _ => rfl
  have theirs : held p.linked.2.accounts two.1 = some (.aliasTo p.account.1) := by
    rw [linked]
    simp only [setHolding_accounts]
    rw [held_replace (by rw [replaceHolding_ids]; exact held_known (canonical_iff.mp found).balance),if_pos rfl]
  have survivor : p.linked.1.1 = p.account.1 := by rw [linked]
  unfold Passage.adjusted applySettings at same mine
  cases settings : request.settings with
  | none =>
    simp only [settings] at same mine
    rw [same]
    refine ⟨theirs,p.linked.1.2,?_,?_,?_⟩
    · rw [same,survivor] at mine; exact mine
    · rw [linked]; rfl
    · rw [linked]; rfl
  | some chosen =>
    simp only [settings] at same mine
    refine ⟨?_,p.linked.1.2.adjusted chosen,?_,?_,rfl⟩
    · rw [same]
      simp only [setHolding_accounts]
      rw [held_replace (held_known done.touched.1.mine),if_neg (by rw [survivor]; exact apart)]
      exact theirs
    · rw [survivor] at mine; exact mine
    · rw [linked]
      cases reset : chosen.reset <;> simp [Balance.adjusted,Balance.linked,reset]

/-- What holds of the accounts, the decisions and the log over a run. -/
structure Spending (world : World) (options : Options) (p : Process) : Prop where
  sound : Sound world options p
  once : ((decisions p.log).map (fun d => (d.grant,d.operationId))).Nodup
  drawn : ∀ d ∈ decisions p.log, Drawn world p.side d.grant
  kept : ∀ d ∈ decisions p.log, d.grant ∈ p.data.grants.map (·.token) → d ∈ p.data.operations
  known : ∀ d ∈ p.data.operations, d ∈ decisions p.log
  balanced : Balanced p.data.accounts (book p.log)
  fair : ∀ earlier h later, p.log = earlier ++ h :: later → Fair world options earlier h
theorem fresh_spending (secret : String) (moment : Int) (side : Side) :
    Spending world options (fresh secret moment side) := by
  refine ⟨fresh_sound secret moment side,by simp [decisions,fresh],by simp [decisions,fresh],by simp [decisions,fresh],
    by simp [fresh,emptyData],⟨by simp [fresh,book],by simp [fresh,emptyData,held]⟩,fun earlier h later same => ?_⟩
  simp [fresh] at same

section
variable {p : Process} {entry : Entry} {answer : Answer} {next base result : Data} {s' s₁ s₂ : Side}

theorem Spending.next_fair (spending : Spending world options p) (valid : next.valid options)
    (applied : Applied world options entry.request p.data p.side answer next s' base result s₁ s₂)
    (balanced : Balanced next.accounts (bookAfter (book p.log) entry.request answer next)) :
    Fair world options p.log ⟨p.opened,p.data,p.side,entry.request,answer,next,s'⟩ := by
  have frame := applied.frame
  obtain ⟨here,mark⟩ := frame.result
  have did := applied.did
  have pruned (write : entry.request.write = true) : Pruned p.data base := by
    have pruned := applied.pruned
    rwa [if_pos write] at pruned
  have seen {d : Decision} (member : d ∈ decisions p.log) (live : d.grant ∈ base.grants.map (·.token)) :
      d ∈ base.operations :=
    frame.live d (spending.kept d member ((frame.sub.map _).subset live)) live
  refine ⟨?_,?_,?_,?_,?_,?_⟩
  · rintro token operationId bytes r request reserved d member rfl rfl
    dsimp only at request reserved
    subst reserved
    rw [request] at did
    cases did with
    | @duplicate _ _ _ _ previous found _ usable quiet known same answer =>
      obtain ⟨there,grant,operation⟩ := decision_known known
      have old := spending.known previous (frame.operations.subset there)
      have equal : previous = d := List.inj_on_of_nodup_map spending.once old member (by rw [grant,operation])
      rw [← equal]
      exact ⟨same,answer.1,answer.2⟩
    | @decided _ _ _ _ found _ usable quiet new positive answer =>
      have live : d.grant ∈ base.grants.map (·.token) := List.mem_map.mpr ⟨found.1,usable.member,usable.token⟩
      exact absurd rfl (decision_new new (seen member live) rfl)
  · intro token operationId bytes r request reserved duplicate
    dsimp only at request reserved ⊢
    subst reserved
    rw [request] at did
    cases did with
    | duplicate => exact ⟨base,here,pruned (by rw [request]; rfl),mark⟩
    | decided usable quiet new positive answer => rw [answer.2] at duplicate; cases duplicate
  · intro token operationId bytes r request reserved first accepted
    dsimp only at request reserved ⊢
    subst reserved
    rw [request] at did
    cases did with
    | duplicate usable quiet known same answer => rw [answer.2] at first; cases first
    | @decided _ _ _ _ found _ usable quiet new positive answer =>
      have there : found.1 ∈ p.data.grants := frame.sub.subset usable.member
      have mine := usable.account
      rw [canonical_congr frame.accounts] at mine
      have fits : bytes ≤ max 0 (found.2.2.limit - found.2.2.spent) := by
        rw [answer.1] at accepted; exact of_decide_eq_true accepted
      refine ⟨found.1.accountId,found.2.1,found.2.2,?_,mine,by omega,?_⟩
      · rw [← usable.token]
        exact holder_of_mem spending.sound.valid.2.1.2.2.1 there
      · rw [mark]
        have known := held_known (canonical_iff.mp usable.account).balance
        have cost : (record base found.2 (decide' token operationId bytes found.2.2)).2.accounts =
            replaceHolding found.2.1 (.balance { found.2.2 with spent := found.2.2.spent + bytes }) base.accounts := by
          simp [record,decide',fits]
        change held (record base found.2 (decide' token operationId bytes found.2.2)).2.accounts _ = _
        rw [cost,held_replace known,if_pos rfl]
  · intro identities request r request' granted link
    dsimp only at request' granted ⊢
    subst granted
    have prune := pruned (by rw [request']; rfl)
    rw [request'] at did
    cases did with
    | authorised passage done =>
      have fair := done.linkedFairly prune link
      rw [mark]
      exact fair
  · intro keeps
    dsimp only at keeps ⊢
    have raised := applied.did.raised keeps (book p.log)
    have same : bookAfter (book p.log) entry.request answer next =
        bookAfter (book p.log) entry.request answer result := by
      rw [mark]; rfl
    rw [spending.balanced.total spending.sound.valid.2.1.1,balanced.total valid.2.1.1,same]
    exact raised
  · intro r resets granted
    dsimp only at resets granted ⊢
    subst granted
    cases request : entry.request with
    | authorize identities request' =>
      rw [request] at did resets
      cases did with
      | @authorised _ _ _ _ _ passage done =>
        have distinct : (result.grants.map (·.token)).Nodup := by
          have distinct := valid.2.1.2.2.1
          rwa [mark] at distinct
        have touched := done.touched.2
        rw [mark]
        refine ⟨_,_,done.value distinct,touched.mine,?_,fun id b apart there => ?_⟩
        · unfold Passage.adjusted applySettings
          simp only [Request.resets] at resets
          cases settings : request'.settings with
          | none => rw [settings] at resets; cases resets
          | some chosen =>
            rw [settings] at resets
            have on : chosen.reset = true := by simpa using resets
            simp [Balance.adjusted,on]
        · have other := touched.others id b apart there
          rwa [frame.accounts] at other
    | inspectGrant | reserve | renew | revokeGrant => rw [request] at resets; cases resets
theorem Spending.answered (spending : Spending world options p) (distinct : Distinct world s')
    (done : apply world options entry p.data p.side = (.ok (answer,next),s')) :
    Spending world options (p.answered entry.request answer next s') := by
  obtain ⟨valid,drawn⟩ := spending.sound.answered done
  obtain ⟨base,result,s₁,s₂,applied⟩ := apply_ok done
  have frame := applied.frame
  obtain ⟨here,mark⟩ := frame.result
  have operations : next.operations = base.operations ++ (decisionOf entry.request answer).toList := by
    rw [mark]; exact applied.did.operations
  have logged : decisions (p.log ++ [⟨p.opened,p.data,p.side,entry.request,answer,next,s'⟩]) =
      decisions p.log ++ (decisionOf entry.request answer).toList := by
    unfold decisions
    rw [List.filterMap_append]
    cases new : decisionOf entry.request answer <;> simp [new]
  have balanced : Balanced next.accounts (bookAfter (book p.log) entry.request answer next) := by
    have distinct' : (result.grants.map (·.token)).Nodup := by
      have distinct := valid.2.1.2.2.1
      rwa [mark] at distinct
    have before : Balanced base.accounts (book p.log) := by rw [frame.accounts]; exact spending.balanced
    have after := applied.did.balanced distinct' before
    rw [mark]
    exact after
  -- a new decision is on a token of the state and on a pair that was not decided
  have new : ∀ d ∈ (decisionOf entry.request answer).toList, Drawn world p.side d.grant ∧
      ∀ d' ∈ decisions p.log, (d'.grant,d'.operationId) ≠ (d.grant,d.operationId) := by
    have did := applied.did
    intro d member
    cases request : entry.request with
    | authorize | inspectGrant | renew | revokeGrant => rw [request] at member; simp [decisionOf] at member
    | reserve token operationId bytes =>
      rw [request] at did member
      cases did with
      | duplicate usable quiet known same answer => simp [decisionOf,answer.2] at member
      | @decided _ _ _ _ found _ usable quiet absent positive answer =>
        simp only [decisionOf,answer.2,Bool.false_eq_true,if_false,Option.toList_some,List.mem_singleton] at member
        subst member
        have live : token ∈ base.grants.map (·.token) := List.mem_map.mpr ⟨found.1,usable.member,usable.token⟩
        refine ⟨?_,fun d' old same => ?_⟩
        · obtain ⟨grant,there,same⟩ := List.mem_map.mp ((frame.sub.map _).subset live)
          dsimp only at same ⊢
          rw [← same]
          exact spending.sound.drawn grant there
        · simp only [Prod.mk.injEq] at same
          obtain ⟨grant,operation⟩ := same
          have live' : d'.grant ∈ base.grants.map (·.token) := by rw [grant]; exact live
          exact decision_new absent (frame.live d' (spending.kept d' old ((frame.sub.map _).subset live')) live')
            grant operation
  refine ⟨⟨valid,drawn⟩,?_,?_,?_,?_,?_,?_⟩
  · dsimp only
    rw [logged,List.map_append,List.nodup_append]
    refine ⟨spending.once,?_,fun x old y fresh same => ?_⟩
    · cases decisionOf entry.request answer <;> simp
    · obtain ⟨d',member',rfl⟩ := List.mem_map.mp old
      obtain ⟨d,member,rfl⟩ := List.mem_map.mp fresh
      exact (new d member).2 d' member' same
  · intro d member
    dsimp only at member ⊢
    rw [logged] at member
    rcases List.mem_append.mp member with old | fresh
    · exact (spending.drawn d old).later frame.moved.tokens
    · exact (new d fresh).1.later frame.moved.tokens
  · intro d member live
    dsimp only at member live ⊢
    rw [logged] at member
    rw [operations]
    rcases List.mem_append.mp member with old | fresh
    · refine List.mem_append_left _ ?_
      obtain ⟨grant,there,same⟩ := List.mem_map.mp live
      rw [mark] at there
      rcases applied.did.moved.grants grant there with ⟨before,was,marked⟩ | ⟨token,more⟩
      · have live' : d.grant ∈ base.grants.map (·.token) := List.mem_map.mpr ⟨before,was,by rw [← marked.token,same]⟩
        exact frame.live d (spending.kept d old ((frame.sub.map _).subset live')) live'
      · rw [applied.tokens] at token more
        rw [← applied.quiet.tokens] at more
        refine absurd ?_ ((spending.drawn d old).ne_next distinct more)
        rw [← same,token]
    · exact List.mem_append_right _ fresh
  · intro d member
    dsimp only at member ⊢
    rw [operations] at member
    rw [logged]
    rcases List.mem_append.mp member with old | fresh
    · exact List.mem_append_left _ (spending.known d (frame.operations.subset old))
    · exact List.mem_append_right _ fresh
  · dsimp only
    unfold book
    rw [List.foldl_append]
    exact balanced
  · exact log_concat spending.fair (spending.next_fair valid applied balanced)
end
theorem Spending.step {p : Process} (step : Step) (distinct : Distinct world (p.step world options step).side)
    (spending : Spending world options p) : Spending world options (p.step world options step) := by
  rcases step_cases p step with rests | ⟨entry,answer,next,s',done,same⟩
  · have sound := spending.sound.step step
    obtain ⟨log,⟨here,data⟩,tokens,_⟩ := rests
    refine ⟨sound,by rw [log]; exact spending.once,?_,?_,?_,?_,by rw [log]; exact spending.fair⟩
    · rw [log]; exact fun d member => (spending.drawn d member).later tokens
    · rw [log,data]; exact spending.kept
    · rw [log,data]; exact spending.known
    · rw [log,data]; exact spending.balanced
  · rw [same] at distinct ⊢
    exact spending.answered distinct done

theorem book_decided (log : List Happening) : ((book log).map (fun c => (c.grant,c.operationId,c.bytes))).Sublist
    (((decisions log).filter (·.accepted)).map (fun d => (d.grant,d.operationId,d.bytes))) := by
  induction log using List.reverseRecOn with
  | nil => exact List.Sublist.refl _
  | append_singleton log h ih =>
    have last : book (log ++ [h]) = bookAfter (book log) h.request h.answer h.after := by simp [book]
    have more : decisions (log ++ [h]) = decisions log ++ (decisionOf h.request h.answer).toList := by
      unfold decisions
      cases new : decisionOf h.request h.answer <;> simp [new]
    rw [last,more,List.filter_append,List.map_append]
    have kept := ih.trans (List.sublist_append_left _ (((decisionOf h.request h.answer).toList.filter (·.accepted)).map
      (fun d => (d.grant,d.operationId,d.bytes))))
    unfold bookAfter
    split
    · split
      · split_ifs with accepted
        · rename_i token operationId bytes r _ _ request answer _ _ _
          rw [List.map_append]
          refine ih.append ?_
          simp [decisionOf,request,answer,accepted.1,accepted.2]
        · exact kept
      · exact kept
    · split_ifs
      · exact (List.filter_sublist.map _).trans kept
      · exact kept
    · exact kept

/-- Over every run of the ledger, whatever its clocks read and its processes lose: a
    pair of a token and an operation is decided once, and a later reservation of it gets
    the same decision and charges nothing; an accepted one fits the limit; what a
    balance has spent is what the book has it owe, and the book is paid in full; a
    refused request leaves the file. Linking adds what was spent and keeps the lower
    limit, and the settings of the same request come after it. -/
theorem spend_conserved (world : World) (options : Options) (secret : String) (moment : Int) (side : Side)
    (steps : List Step) (distinct : Distinct world ((fresh secret moment side).run world options steps).side) :
    let p := (fresh secret moment side).run world options steps
    ((decisions p.log).map (fun d => (d.grant,d.operationId))).Nodup ∧
    (∀ earlier h later, p.log = earlier ++ h :: later → Fair world options earlier h) ∧
    ((book p.log).map (fun c => (c.grant,c.operationId,c.bytes))).Sublist
      (((decisions p.log).filter (·.accepted)).map (fun d => (d.grant,d.operationId,d.bytes))) ∧
    (∀ id b, held p.data.accounts id = some (.balance b) → b.spent = owed p.data.accounts (book p.log) id) ∧
    totalSpent p.data.accounts = ((book p.log).map (·.bytes)).sum ∧
    ∀ entry refusal, (apply world options entry p.data p.side).1 = .error refusal →
      (p.step world options (.request entry)).data = p.data ∧ (p.step world options (.request entry)).log = p.log := by
  intro p
  have spending : Spending world options p :=
    distinct_run_invariant (fun _ step distinct spending => Spending.step step distinct spending) steps distinct
      (fresh_spending secret moment side)
  exact ⟨spending.once,spending.fair,book_decided p.log,spending.balanced.even,
    spending.balanced.total spending.sound.valid.2.1.1,fun entry refusal refused => refused_same refused⟩
end


/-- A viewer uploads, links a website account, resets and raises the limit. -/
def linkRequests : List Request := [asked [viewer] none,.reserve (digits 64 0) (digits 32 0) 300,asked [customer] none,
  asked [viewer,customer] (some ⟨5000,true⟩)]
def spendRequests : List Request := linkRequests ++ [.reserve (digits 64 2) (digits 32 1) 700]
theorem spend_conserved_link : Distinct steadyWorld (steadyRun spendRequests).side ∧
    totalSpent (steadyRun spendRequests).data.accounts = ((book (steadyRun spendRequests).log).map (·.bytes)).sum ∧
    totalSpent (steadyRun spendRequests).data.accounts = 700 := by
  have distinct : Distinct steadyWorld (steadyRun spendRequests).side := by
    have drawn : (steadyRun spendRequests).side.tokens = 3 := by decide +kernel
    unfold Distinct
    rw [drawn]
    have apart : ∀ m < 3, ∀ n < 3, steadyWorld.token m = steadyWorld.token n → m = n := by decide +kernel
    exact fun m low n low' same => apart m low n low' same
  exact ⟨distinct,(spend_conserved _ _ _ _ _ _ distinct).2.2.2.2.1,by decide +kernel⟩
/-- A link with settings: the survivor had spent 300 of 1000, the other account nothing
    of 1000, and afterwards it has spent nothing of 5000. -/
theorem link_not_sum : (steadyRun linkRequests).log.getLast?.map (fun h =>
      (h.before.accounts.map (·.holding),h.after.accounts.map (·.holding))) =
    some ([.balance ⟨1000,300,1,1⟩,.balance ⟨1000,0,1,1⟩],[.balance ⟨5000,0,3,3⟩,.aliasTo (digits 32 0)]) := by
  decide +kernel

end RelaySwarm.Ledger
