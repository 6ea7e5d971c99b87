import RelaySwarm.LedgerOutcomes

/-!
A request keeps a state valid. The rows of a state have their forms (`Rows`), with room for
so many more revisions and generations of every account; what each operation does keeps the
forms and uses up the room.
-/
namespace RelaySwarm.Ledger
open Effect Script

variable {b : Balance} {account : String × Balance}
section
variable {world : World} {options : Options}

/-! ### Rows -/

/-- A balance that may count so many revisions and generations more. -/
structure Balance.Formed (revisions generations : Int) (b : Balance) : Prop where
  limit : amount b.limit = true
  spent : 0 ≤ b.spent ∧ b.spent ≤ maxSafe
  revision : 1 ≤ b.revision ∧ b.revision + revisions ≤ maxSafe
  generation : 1 ≤ b.generation ∧ b.generation + generations ≤ maxSafe
def Holding.Formed (revisions generations : Int) : Holding → Prop
  | .aliasTo next => hex next 32 = true
  | .balance b => b.Formed revisions generations
structure Grant.Formed (grant : Grant) : Prop where
  token : hex grant.token 64 = true
  pagePubkey : hex grant.pagePubkey 64 = true
  methods : methodsValid grant.methods = true
  epoch : isSafeInteger grant.epoch = true
  expiresAt : isSafeInteger grant.expiresAt = true
  delegationExpiresAt : isSafeInteger grant.delegationExpiresAt = true
  ordered : grant.expiresAt ≤ grant.delegationExpiresAt
  websiteIdentity : grant.websiteIdentity.all (fun id => hex id 64) = true
  renewal : grant.renewal.all (fun renewal => hex renewal.operationId 32 && hex renewal.token 64) = true
structure Decision.Formed (data : Data) (decision : Decision) : Prop where
  grant : decision.grant ∈ data.grants.map (·.token)
  operationId : hex decision.operationId 32 = true
  bytes : amount decision.bytes = true ∧ 1 ≤ decision.bytes
/-- The rows of a state on their own, and no two of them for one thing. -/
structure Rows (revisions generations : Int) (data : Data) : Prop where
  accountIds : (data.accounts.map (·.id)).Nodup
  identityIds : (data.identities.map (·.id)).Nodup
  tokens : (data.grants.map (·.token)).Nodup
  pairs : (data.operations.map (fun o => (o.grant,o.operationId))).Nodup
  accounts : ∀ account ∈ data.accounts, hex account.id 32 = true ∧ account.holding.Formed revisions generations
  identities : ∀ identity ∈ data.identities, hex identity.id 64 = true ∧
    (identity.method = "nostr" ∨ identity.method = "website")
  grants : ∀ grant ∈ data.grants, grant.Formed
  operations : ∀ decision ∈ data.operations, decision.Formed data

theorem safe_iff {n : Int} : isSafeInteger n = true ↔ -maxSafe ≤ n ∧ n ≤ maxSafe := by
  simp [isSafeInteger]
theorem valid_rows {data : Data} (valid : data.valid options) : Rows 0 0 data := by
  obtain ⟨_,⟨ids,identityIds,tokens,pairs⟩,accounts,identities,grants,operations⟩ := valid
  refine ⟨ids,identityIds,tokens,pairs,?_,?_,?_,?_⟩
  · intro account member
    have checked := accounts account member
    simp only [accountValid,Bool.and_eq_true] at checked
    refine ⟨checked.1.1,?_⟩
    have holding := checked.1.2
    unfold Holding.Formed
    split
    · rename_i next same
      rw [same] at holding
      exact holding
    · rename_i b same
      rw [same] at holding
      simp only [Bool.and_eq_true,decide_eq_true_eq,safe_iff] at holding
      obtain ⟨⟨⟨⟨⟨⟨limit,spent⟩,spent'⟩,revision⟩,revision'⟩,generation⟩,generation'⟩ := holding
      exact ⟨limit,⟨spent',spent.2⟩,⟨revision',by omega⟩,⟨generation',by omega⟩⟩
  · intro identity member
    have checked := identities identity member
    simp only [identityValid,Bool.and_eq_true,Bool.or_eq_true,decide_eq_true_eq] at checked
    exact checked.1
  · intro grant member
    have checked := grants grant member
    simp only [grantValid,Bool.and_eq_true,decide_eq_true_eq] at checked
    obtain ⟨⟨⟨⟨⟨⟨⟨⟨⟨token,page⟩,methods⟩,_⟩,epoch⟩,expires⟩,delegation⟩,ordered⟩,website⟩,renewal⟩ := checked
    exact ⟨token,page,methods,epoch,expires,delegation,ordered,website,renewal⟩
  · intro decision member
    have checked := operations decision member
    simp only [decisionValid,Bool.and_eq_true,decide_eq_true_eq] at checked
    obtain ⟨⟨⟨grant,operation⟩,bytes⟩,some⟩ := checked
    obtain ⟨held,inside,same⟩ := List.any_eq_true.mp grant
    exact ⟨List.mem_map.mpr ⟨held,inside,of_decide_eq_true same⟩,operation,bytes,some⟩
theorem known_any {id : String} {accounts : List Account} (known : id ∈ accounts.map (·.id)) :
    accounts.any (·.id = id) = true := by
  obtain ⟨account,member,same⟩ := List.mem_map.mp known
  exact List.any_eq_true.mpr ⟨account,member,decide_eq_true same⟩
theorem rows_valid {data : Data} (roomy : Roomy options data) (resolving : Resolving data) (rows : Rows 0 0 data) :
    data.valid options := by
  refine ⟨⟨roomy.accounts,roomy.identities,roomy.grants,roomy.operations⟩,
    ⟨rows.accountIds,rows.identityIds,rows.tokens,rows.pairs⟩,?_,?_,?_,?_⟩
  · intro account member
    obtain ⟨named,formed⟩ := rows.accounts account member
    obtain ⟨owner,found⟩ := resolving.found (List.mem_map_of_mem member)
    simp only [accountValid,Bool.and_eq_true]
    refine ⟨⟨named,?_⟩,Option.isSome_of_eq_some found⟩
    cases holding : account.holding with
    | aliasTo next =>
      rw [holding] at formed
      exact formed
    | balance b =>
      rw [holding] at formed
      obtain ⟨limit,spent,revision,generation⟩ := formed
      simp only [Bool.and_eq_true,decide_eq_true_eq,safe_iff]
      have large : 0 < maxSafe := by decide
      exact ⟨⟨⟨⟨⟨⟨limit,by omega,spent.2⟩,spent.1⟩,by omega,by omega⟩,revision.1⟩,by omega,by omega⟩,generation.1⟩
  · intro identity member
    simp only [identityValid,Bool.and_eq_true,Bool.or_eq_true,decide_eq_true_eq]
    exact ⟨rows.identities identity member,known_any (resolving.identities identity member)⟩
  · intro grant member
    obtain ⟨token,page,methods,epoch,expires,delegation,ordered,website,renewal⟩ := rows.grants grant member
    simp only [grantValid,Bool.and_eq_true,decide_eq_true_eq]
    exact ⟨⟨⟨⟨⟨⟨⟨⟨⟨token,page⟩,methods⟩,known_any (resolving.grants grant member)⟩,epoch⟩,expires⟩,delegation⟩,ordered⟩,
      website⟩,renewal⟩
  · intro decision member
    obtain ⟨grant,operation,bytes⟩ := rows.operations decision member
    obtain ⟨held,inside,same⟩ := List.mem_map.mp grant
    simp only [decisionValid,Bool.and_eq_true,decide_eq_true_eq]
    exact ⟨⟨⟨List.any_eq_true.mpr ⟨held,inside,decide_eq_true same⟩,operation⟩,bytes.1⟩,bytes.2⟩

variable {revisions generations fewer less : Int} {data : Data}

theorem Balance.Formed.weaken (formed : b.Formed revisions generations) (few : fewer ≤ revisions)
    (small : less ≤ generations) :
    b.Formed fewer less :=
  ⟨formed.limit,formed.spent,⟨formed.revision.1,by have most := formed.revision.2; omega⟩,
    ⟨formed.generation.1,by have most := formed.generation.2; omega⟩⟩
theorem Rows.weaken (rows : Rows revisions generations data) (few : fewer ≤ revisions) (small : less ≤ generations) :
    Rows fewer less data := by
  refine ⟨rows.accountIds,rows.identityIds,rows.tokens,rows.pairs,?_,rows.identities,rows.grants,rows.operations⟩
  intro account member
  obtain ⟨named,formed⟩ := rows.accounts account member
  refine ⟨named,?_⟩
  cases holding : account.holding with
  | aliasTo next =>
    rw [holding] at formed
    exact formed
  | balance b =>
    rw [holding] at formed
    exact Balance.Formed.weaken formed few small
theorem Rows.balance (rows : Rows revisions generations data) {id : String}
    (own : held data.accounts id = some (.balance b)) :
    b.Formed revisions generations ∧ hex id 32 = true := by
  obtain ⟨account,found,holding⟩ := Option.map_eq_some_iff.mp own
  obtain ⟨named,formed⟩ := rows.accounts account (List.mem_of_find?_eq_some found)
  rw [holding] at formed
  have same : account.id = id := by simpa using List.find?_some found
  exact ⟨formed,by rw [← same]; exact named⟩
theorem pruned_rows {pruned : Data} (rows : Rows revisions generations data) (done : Pruned data pruned) :
    Rows revisions generations pruned := by
  obtain ⟨_,accounts,identities,grants,operations⟩ := done
  constructor
  · rw [accounts]
    exact rows.accountIds
  · rw [identities]
    exact rows.identityIds
  · exact rows.tokens.sublist (grants.map _)
  · rw [operations]
    exact rows.pairs.sublist (List.filter_sublist.map _)
  · rw [accounts]
    exact rows.accounts
  · rw [identities]
    exact rows.identities
  · exact fun grant member => rows.grants grant (grants.subset member)
  · intro decision member
    rw [operations,List.mem_filter] at member
    obtain ⟨old,live⟩ := member
    have formed := rows.operations decision old
    exact ⟨of_decide_eq_true live,formed.operationId,formed.bytes⟩
theorem mem_replaceHolding {id : String} {holding : Holding} {accounts : List Account} {account : Account}
    (member : account ∈ replaceHolding id holding accounts) : account ∈ accounts ∨
      ∃ old ∈ accounts, account = { old with holding := holding } := by
  induction accounts with
  | nil => cases member
  | cons first rest ih =>
    unfold replaceHolding at member
    split at member
    · rcases List.mem_cons.mp member with rfl | later
      · exact .inr ⟨first,List.mem_cons_self,rfl⟩
      · exact .inl (List.mem_cons_of_mem _ later)
    · rcases List.mem_cons.mp member with rfl | later
      · exact .inl List.mem_cons_self
      · rcases ih later with old | ⟨old,inside,same⟩
        · exact .inl (List.mem_cons_of_mem _ old)
        · exact .inr ⟨old,List.mem_cons_of_mem _ inside,same⟩
theorem setHolding_rows (rows : Rows revisions generations data) (id : String) {holding : Holding}
    (formed : holding.Formed revisions generations) :
    Rows revisions generations (data.setHolding id holding) := by
  refine ⟨?_,rows.identityIds,rows.tokens,rows.pairs,?_,rows.identities,rows.grants,fun decision member => ?_⟩
  · unfold Data.setHolding
    rw [replaceHolding_ids]
    exact rows.accountIds
  · intro account member
    rcases mem_replaceHolding member with old | ⟨old,inside,rfl⟩
    · exact rows.accounts account old
    · exact ⟨(rows.accounts old inside).1,formed⟩
  · exact ⟨(rows.operations decision member).grant,(rows.operations decision member).operationId,
      (rows.operations decision member).bytes⟩

/-! ### Enrolment -/

/-- The next identifiers drawn are new and differ. -/
structure NewIds (world : World) (data : Data) (s : Side) (count : Nat) : Prop where
  fresh : ∀ k, s.ids ≤ k → k < s.ids + count → hex (world.accountId k) 32 = true ∧
    world.accountId k ∉ data.accounts.map (·.id)
  apart : ∀ i j, s.ids ≤ i → i < j → j < s.ids + count → world.accountId i ≠ world.accountId j

variable {s s' : Side}

theorem NewIds.one_less {count : Nat} (new : NewIds world data s (count + 1)) : NewIds world data s count :=
  ⟨fun k low high => new.fresh k low (by omega),fun i j low less high => new.apart i j low less (by omega)⟩
theorem enrolNew_rows {id method : String} {record : Identity} {enrolled : Data} {count : Nat}
    (limit : amount options.defaultLimit = true)
    (room : 1 + revisions ≤ maxSafe ∧ 1 + generations ≤ maxSafe) (named : hex id 64 = true)
    (verified : method = "nostr" ∨ method = "website")
    (absent : data.identities.find? (·.id = id) = none) (rows : Rows revisions generations data)
    (new : NewIds world data s (count + 1))
    (done : enrolNew world options data id method s = (.ok (record,enrolled),s')) :
    Rows revisions generations enrolled ∧ NewIds world enrolled s' count := by
  simp only [enrolNew,bind_ok,refuseIf_ok,randomId_ok,pure_ok,Prod.mk.injEq] at done
  obtain ⟨_,_,⟨_,rfl⟩,accountId,_,⟨drawn,rfl⟩,⟨rfl,rfl⟩,rfl⟩ := done
  obtain ⟨hexed,unknown⟩ := new.fresh s.ids le_rfl (by omega)
  rw [drawn] at hexed unknown
  refine ⟨⟨?_,?_,rows.tokens,rows.pairs,?_,?_,rows.grants,?_⟩,⟨?_,?_⟩⟩
  · rw [List.map_append,List.nodup_append]
    refine ⟨rows.accountIds,List.nodup_singleton _,?_⟩
    intro other member own last same
    rw [List.mem_singleton.mp last] at same
    have known : accountId ∈ data.accounts.map (·.id) := by
      rw [show accountId = other from same.symm]
      exact member
    exact unknown known
  · rw [List.map_append,List.nodup_append]
    refine ⟨rows.identityIds,List.nodup_singleton _,?_⟩
    intro other member own last same
    obtain ⟨identity,inside,rfl⟩ := List.mem_map.mp member
    rw [List.mem_singleton.mp last] at same
    have miss := List.find?_eq_none.mp absent identity inside
    exact miss (decide_eq_true same)
  · intro account member
    rcases List.mem_append.mp member with old | last
    · exact rows.accounts account old
    · rw [List.mem_singleton.mp last]
      exact ⟨hexed,⟨limit,⟨le_rfl,(by decide : (0 : Int) ≤ maxSafe)⟩,⟨le_rfl,room.1⟩,⟨le_rfl,room.2⟩⟩⟩
  · intro identity member
    rcases List.mem_append.mp member with old | last
    · exact rows.identities identity old
    · rw [List.mem_singleton.mp last]
      exact ⟨named,verified⟩
  · exact fun decision member => ⟨(rows.operations decision member).grant,(rows.operations decision member).operationId,
      (rows.operations decision member).bytes⟩
  · intro k low high
    dsimp only at low high
    obtain ⟨hexed',unknown'⟩ := new.fresh k (by omega) (by omega)
    refine ⟨hexed',?_⟩
    rw [List.map_append,List.mem_append,not_or]
    refine ⟨unknown',?_⟩
    rw [List.map_singleton,List.mem_singleton,← drawn]
    exact (new.apart s.ids k le_rfl (by omega) (by omega)).symm
  · intro i j low less high
    dsimp only at low high
    exact new.apart i j (by omega) less (by omega)
theorem enrol_rows {value : Verified} {record : Identity} {enrolled : Data} {count : Nat}
    (limit : amount options.defaultLimit = true)
    (room : 1 + revisions ≤ maxSafe ∧ 1 + generations ≤ maxSafe)
    (digest : ∀ value, hex (world.digest data.secret value) 64 = true)
    (rows : Rows revisions generations data) (new : NewIds world data s (count + 1))
    (done : enrol world options data value s = (.ok (record,enrolled),s')) :
    Rows revisions generations enrolled ∧ NewIds world enrolled s' count := by
  simp only [enrol,identityId,bind_ok,refuseIf_ok,pure_ok] at done
  obtain ⟨_,_,⟨_,_,⟨verified,rfl⟩,rfl,rfl⟩,rest⟩ := done
  cases known : data.identities.find? (fun identity => identity.id = world.digest data.secret value) with
  | some found =>
    simp only [known,pure_ok,Prod.mk.injEq] at rest
    obtain ⟨⟨rfl,rfl⟩,rfl⟩ := rest
    exact ⟨rows,new.one_less⟩
  | none =>
    simp only [known] at rest
    refine enrolNew_rows limit room (digest value) ?_ known rows new rest
    by_contra other
    rw [not_or] at other
    exact verified (.inl other)
theorem enrolAll_rows (limit : amount options.defaultLimit = true)
    (room : 1 + revisions ≤ maxSafe ∧ 1 + generations ≤ maxSafe)
    (values : List Verified) : ∀ {data enrolled : Data} {records : List Identity} {s s' : Side},
    (∀ value, hex (world.digest data.secret value) 64 = true) → Rows revisions generations data →
      NewIds world data s values.length →
    enrolAll world options data values s = (.ok (records,enrolled),s') → Rows revisions generations enrolled := by
  induction values with
  | nil =>
    intro data enrolled records s s' digest rows new done
    simp only [enrolAll,pure_ok,Prod.mk.injEq] at done
    obtain ⟨⟨rfl,rfl⟩,rfl⟩ := done
    exact rows
  | cons value rest ih =>
    intro data enrolled records s s' digest rows new done
    simp only [enrolAll,bind_ok,pure_ok,Prod.mk.injEq] at done
    obtain ⟨first,_,one,later,_,others,⟨rfl,rfl⟩,rfl⟩ := done
    obtain ⟨rows',new'⟩ := enrol_rows limit room digest rows new one
    refine ih ?_ rows' new' others
    rw [(enrol_ok one).1.secret]
    exact digest

/-! ### Links and settings -/

theorem isSafe_sum {a b : Int} (first : 0 ≤ a) (second : 0 ≤ b) (safe : isSafeInteger (a + b) = true) :
    0 ≤ a + b ∧ a + b ≤ maxSafe :=
  ⟨by omega,(safe_iff.mp safe).2⟩
theorem linked_formed {b other : Balance} (own : b.Formed (revisions + 1) (generations + 1))
    (theirs : other.Formed (revisions + 1) (generations + 1))
    (safe : isSafeInteger (b.spent + other.spent) = true) : (b.linked other).Formed revisions generations := by
  obtain ⟨limit,spent,revision,generation⟩ := own
  obtain ⟨limit',spent',revision',generation'⟩ := theirs
  refine ⟨?_,isSafe_sum spent.1 spent'.1 safe,?_,?_⟩
  · unfold Balance.linked
    dsimp only
    rcases min_choice b.limit other.limit with same | same
    · rw [same]
      exact limit
    · rw [same]
      exact limit'
  · unfold Balance.linked
    dsimp only
    omega
  · unfold Balance.linked
    dsimp only
    omega
theorem adjusted_formed {settings : Settings}
    (formed : b.Formed (revisions + 1) (generations + if settings.reset then 1 else 0))
    (limit : amount settings.limit = true) : (b.adjusted settings).Formed revisions generations := by
  obtain ⟨_,spent,revision,generation⟩ := formed
  unfold Balance.adjusted
  cases reset : settings.reset with
  | true =>
    rw [reset] at generation
    simp only [if_true] at generation ⊢
    exact ⟨limit,⟨le_rfl,(by decide : (0 : Int) ≤ maxSafe)⟩,⟨by dsimp only; omega,by dsimp only; omega⟩,
      ⟨by dsimp only; omega,by dsimp only; omega⟩⟩
  | false =>
    rw [reset] at generation
    simp only [Bool.false_eq_true,if_false] at generation ⊢
    exact ⟨limit,spent,⟨by dsimp only; omega,by dsimp only; omega⟩,⟨generation.1,by dsimp only; omega⟩⟩

theorem linkAccounts_rows {otherId : String} {linked : (String × Balance) × Data}
    (rows : Rows (revisions + 1) (generations + 1) data)
    (own : held data.accounts account.1 = some (.balance account.2))
    (done : linkAccounts data account otherId s = (.ok linked,s')) : Rows revisions generations linked.2 := by
  simp only [linkAccounts,bind_ok,require_ok] at done
  obtain ⟨other,_,⟨found,rfl⟩,rest⟩ := done
  obtain ⟨formed,named⟩ := rows.balance own
  have fewer : Rows revisions generations data := rows.weaken (by omega) (by omega)
  split_ifs at rest with same
  · simp only [pure_ok] at rest
    obtain ⟨rfl,rfl⟩ := rest
    refine setHolding_rows fewer _ ⟨formed.limit,formed.spent,?_,?_⟩
    · have revision := formed.revision
      dsimp only
      omega
    · exact ⟨formed.generation.1,by have most := formed.generation.2; dsimp only; omega⟩
  · simp only [bind_ok,refuseIf_ok,pure_ok] at rest
    obtain ⟨_,_,⟨safe,rfl⟩,rfl,rfl⟩ := rest
    obtain ⟨theirs,_⟩ := rows.balance (canonical_iff.mp found).balance
    have joined : (Holding.balance (account.2.linked other.2)).Formed revisions generations :=
      linked_formed formed theirs (by simpa using safe)
    exact setHolding_rows (setHolding_rows fewer account.1 joined) _ named
/-- How many revisions, and generations, an authorisation may add to an account. -/
def Authorisation.moreRevisions (request : Authorisation) : Int :=
  (if request.link then 1 else 0) + if request.settings.isSome then 1 else 0
def Authorisation.moreGenerations (request : Authorisation) : Int :=
  (if request.link then 1 else 0) + if request.settings.any (·.reset) then 1 else 0
theorem linkRecords_rows {records : List Identity} {link : Bool} {linked : (String × Balance) × Data}
    (rows : Rows (revisions + if link then 1 else 0) (generations + if link then 1 else 0) data)
    (own : held data.accounts account.1 = some (.balance account.2))
    (done : linkRecords data account records link s = (.ok linked,s')) :
    Rows revisions generations linked.2 := by
  have fewer : Rows revisions generations data := rows.weaken (by split <;> omega) (by split <;> omega)
  unfold linkRecords at done
  cases link with
  | false =>
    simp only [pure_ok] at done
    obtain ⟨rfl,rfl⟩ := done
    exact fewer
  | true =>
    cases second : records[1]? with
    | none =>
      simp only [second,pure_ok] at done
      obtain ⟨rfl,rfl⟩ := done
      exact fewer
    | some record =>
      simp only [second] at done
      exact linkAccounts_rows rows own done
theorem applySettings_rows {linked : (String × Balance) × Data} {settings : Option Settings}
    (limit : ∀ chosen, settings = some chosen → amount chosen.limit = true)
    (rows : Rows (revisions + if settings.isSome then 1 else 0) (generations + if settings.any (·.reset) then 1
      else 0) linked.2)
    (own : held linked.2.accounts linked.1.1 = some (.balance linked.1.2)) : Rows revisions generations
      (applySettings linked settings).2 := by
  unfold applySettings
  cases settings with
  | none => exact rows.weaken (by simp) (by simp)
  | some settings =>
    obtain ⟨formed,_⟩ := rows.balance own
    have fewer : Rows revisions generations linked.2 := rows.weaken (by simp) (by split <;> omega)
    exact setHolding_rows fewer _ (adjusted_formed formed (limit settings rfl))
theorem adjustAccount_rows {records : List Identity} {request : Authorisation} {adjusted : (String × Balance) × Data}
    (resolving : Resolving data) (limit : ∀ chosen, request.settings = some chosen → amount chosen.limit = true)
    (pair : request.link = true → 2 ≤ records.length) (rows : Rows request.moreRevisions request.moreGenerations data)
    (done : adjustAccount data records request s = (.ok adjusted,s')) : Rows 0 0 adjusted.2 := by
  simp only [adjustAccount,bind_ok,require_ok,pure_ok] at done
  obtain ⟨first,_,⟨_,rfl⟩,account,_,⟨found,rfl⟩,linked,_,linking,rfl,rfl⟩ := done
  obtain ⟨_,_,link⟩ := linkRecords_ok pair linking
  have own := (canonical_iff.mp found).balance
  obtain ⟨_,own'⟩ := linked_resolving resolving own link
  refine applySettings_rows limit ?_ own'
  refine linkRecords_rows ?_ own linking
  refine rows.weaken ?_ ?_
  · unfold Authorisation.moreRevisions
    omega
  · unfold Authorisation.moreGenerations
    omega
theorem revokedWhere_rows (rows : Rows revisions generations data) (account : String) (selected : Grant → Bool) :
    Rows revisions generations (revokedWhere data account selected) := by
  have tokens : (revokedWhere data account selected).grants.map (·.token) = data.grants.map (·.token) := by
    unfold revokedWhere
    rw [List.map_map]
    refine List.map_congr_left (fun grant _ => ?_)
    dsimp only [Function.comp]
    split <;> rfl
  refine ⟨rows.accountIds,rows.identityIds,?_,rows.pairs,rows.accounts,rows.identities,?_,?_⟩
  · rw [tokens]
    exact rows.tokens
  · intro grant member
    obtain ⟨old,inside,rfl⟩ := List.mem_map.mp member
    have formed := rows.grants old inside
    split
    · exact ⟨formed.token,formed.pagePubkey,formed.methods,formed.epoch,formed.expiresAt,formed.delegationExpiresAt,
        formed.ordered,formed.websiteIdentity,formed.renewal⟩
    · exact formed
  · intro decision member
    have formed := rows.operations decision member
    exact ⟨by rw [tokens]; exact formed.grant,formed.operationId,formed.bytes⟩

/-! ### Grants -/

/-- A request for a grant whose row will have its form. -/
structure Issue.Formed (request : Issue) : Prop where
  pagePubkey : hex request.pagePubkey 64 = true
  methods : methodsValid request.methods = true
  delegationExpiresAt : isSafeInteger request.delegationExpiresAt = true
  websiteIdentity : request.websiteIdentity.all (fun id => hex id 64) = true
/-- The next token drawn is new. -/
def NewToken (world : World) (data : Data) (s : Side) : Prop :=
  hex (world.token s.tokens) 64 = true ∧ world.token s.tokens ∉ data.grants.map (·.token)
theorem issue_rows {request : Issue} {value : Grant} {issued : Data} (ttl : 0 ≤ options.grantTtlSeconds)
    (wall : 0 ≤ s.highestWall) (formed : request.Formed)
    (own : held data.accounts account.1 = some (.balance account.2))
    (rows : Rows revisions generations data) (positive : 0 ≤ revisions) (new : NewToken world data s)
    (done : issue world options data account request s = (.ok (value,issued),s')) : Rows revisions generations issued ∧
      value.Formed := by
  have shape := (issue_ok done).shape
  have expires : value.expiresAt ≤ request.delegationExpiresAt ∧
      (0 ≤ value.expiresAt ∨ value.expiresAt = request.delegationExpiresAt) := by
    simp only [issue,bind_ok,refuseIf_ok,randomToken_ok,time_ok,monotonicNow_ok,pure_ok] at done
    obtain ⟨_,_,⟨_,rfl⟩,_,_,⟨_,rfl⟩,at₁,_,⟨_,early,rfl⟩,_,_,⟨_,rfl⟩,_,_,_,_,_,_,_,_,_,same,_⟩ := done
    cases same
    dsimp only at early ⊢
    refine ⟨min_le_right _ _,?_⟩
    rcases min_choice (at₁ + options.grantTtlSeconds * 1000) request.delegationExpiresAt with first | second
    · rw [first]
      exact .inl (by omega)
    · exact .inr second
  have delegation := safe_iff.mp formed.delegationExpiresAt
  have large : 0 < maxSafe := by decide
  obtain ⟨balance,_⟩ := rows.balance own
  have made : value.Formed := by
    have epoch := balance.revision
    rw [shape]
    refine ⟨new.1,formed.pagePubkey,formed.methods,safe_iff.mpr ⟨by dsimp only; omega,by dsimp only; omega⟩,
      safe_iff.mpr ⟨by dsimp only; omega,by dsimp only; omega⟩,formed.delegationExpiresAt,expires.1,
        formed.websiteIdentity,rfl⟩
  have token : value.token = world.token s.tokens := by rw [shape]
  rw [(issue_ok done).issued]
  refine ⟨⟨rows.accountIds,rows.identityIds,?_,rows.pairs,rows.accounts,rows.identities,?_,?_⟩,made⟩
  · rw [List.map_append,List.nodup_append]
    refine ⟨rows.tokens,List.nodup_singleton _,?_⟩
    intro other member own last same
    have own' : other = world.token s.tokens := (same.trans (List.mem_singleton.mp last)).trans token
    rw [own'] at member
    exact new.2 member
  · intro grant member
    rcases List.mem_append.mp member with old | last
    · exact rows.grants grant old
    · rw [List.mem_singleton.mp last]
      exact made
  · intro decision member
    have formed := rows.operations decision member
    refine ⟨?_,formed.operationId,formed.bytes⟩
    rw [List.map_append]
    exact List.mem_append_left _ formed.grant
theorem renewed_rows {token : String} {renewal : Renewal} (rows : Rows revisions generations data)
    (named : hex renewal.operationId 32 = true) (drawn : hex renewal.token 64 = true) :
    Rows revisions generations { data with grants := setRenewal token renewal data.grants } := by
  have tokens : (setRenewal token renewal data.grants).map (·.token) = data.grants.map (·.token) := by
    generalize data.grants = grants
    induction grants with
    | nil => rfl
    | cons grant rest ih =>
      unfold setRenewal
      split <;> simp [ih]
  refine ⟨rows.accountIds,rows.identityIds,?_,rows.pairs,rows.accounts,rows.identities,?_,?_⟩
  · dsimp only
    rw [tokens]
    exact rows.tokens
  · intro grant member
    rcases setRenewal_mem member with old | ⟨old,inside,rfl⟩
    · exact rows.grants grant old
    · have formed := rows.grants old inside
      exact ⟨formed.token,formed.pagePubkey,formed.methods,formed.epoch,formed.expiresAt,formed.delegationExpiresAt,
        formed.ordered,formed.websiteIdentity,by simp [named,drawn]⟩
  · intro decision member
    have formed := rows.operations decision member
    refine ⟨?_,formed.operationId,formed.bytes⟩
    dsimp only
    rw [tokens]
    exact formed.grant
theorem recorded_rows {token operationId : String} {bytes : Int} (rows : Rows revisions generations data)
    (own : held data.accounts account.1 = some (.balance account.2)) (granted : token ∈ data.grants.map (·.token))
    (named : hex operationId 32 = true) (sized : amount bytes = true ∧ 1 ≤ bytes)
    (fresh : data.decision token operationId = none) :
    Rows revisions generations (record data account (decide' token operationId bytes account.2)).2 := by
  obtain ⟨formed,_⟩ := rows.balance own
  have charged : (if (decide' token operationId bytes account.2).accepted then
      { account.2 with spent := account.2.spent + (decide' token operationId bytes account.2).bytes }
        else account.2).Formed revisions generations := by
    split
    · rename_i accepted
      have within : bytes ≤ max 0 (account.2.limit - account.2.spent) := of_decide_eq_true accepted
      have limit := formed.limit
      simp only [amount,Bool.and_eq_true,decide_eq_true_eq,safe_iff] at limit
      have spent := formed.spent
      refine ⟨formed.limit,⟨?_,?_⟩,formed.revision,formed.generation⟩
      · show 0 ≤ account.2.spent + bytes
        omega
      · show account.2.spent + bytes ≤ maxSafe
        rcases max_choice 0 (account.2.limit - account.2.spent) with first | second <;> omega
    · exact formed
  have set := setHolding_rows rows account.1 (show (Holding.balance _).Formed revisions generations from charged)
  refine ⟨set.accountIds,set.identityIds,set.tokens,?_,set.accounts,set.identities,set.grants,?_⟩
  · show ((data.operations ++ [_]).map _).Nodup
    rw [List.map_append,List.nodup_append]
    refine ⟨rows.pairs,List.nodup_singleton _,?_⟩
    intro other member own last same
    obtain ⟨decision,inside,rfl⟩ := List.mem_map.mp member
    rw [List.mem_singleton.mp last] at same
    have miss := List.find?_eq_none.mp fresh decision inside
    simp only [decide',Prod.mk.injEq] at same
    exact miss (by simp [same.1,same.2])
  · intro decision member
    rcases List.mem_append.mp member with old | last
    · have formed := rows.operations decision old
      exact ⟨formed.grant,formed.operationId,formed.bytes⟩
    · rw [List.mem_singleton.mp last]
      exact ⟨granted,named,sized⟩

/-! ### Operations -/

/-- What the process draws next is new: two identifiers of accounts and a token. Digests
    have their form. -/
structure FreshDraws (world : World) (data : Data) (s : Side) : Prop where
  ids : NewIds world data s 2
  token : NewToken world data s
  digest : ∀ value, hex (world.digest data.secret value) 64 = true

/-- What an authorisation that passed its checks asks for. -/
structure Authorisation.Checked (identities : List Verified) (request : Authorisation) : Prop where
  pagePubkey : hex request.pagePubkey 64 = true
  methods : methodsValid request.methods = true
  length : identities.length ≤ 2
  delegationExpiresAt : isSafeInteger request.delegationExpiresAt = true
  limit : ∀ chosen, request.settings = some chosen → amount chosen.limit = true
theorem checkAuthorisation_checked {identities : List Verified} {request : Authorisation} {done : PUnit}
    (checked : checkAuthorisation world options identities request s = (.ok done,s')) :
    request.Checked identities ∧ s'.ids = s.ids ∧ s'.tokens = s.tokens ∧ s.highestWall ≤ s'.highestWall := by
  simp only [checkAuthorisation,bind_ok,refuseIf_ok,time_ok] at checked
  obtain ⟨_,_,⟨valid,rfl⟩,at₁,_,⟨_,wall₁,rfl⟩,_,_,⟨_,rfl⟩,at₂,_,⟨_,wall₂,rfl⟩,_,_,⟨_,rfl⟩,at₃,_,⟨_,wall₃,rfl⟩,last,
    rfl⟩ := checked
  obtain ⟨page,methods,length,_,safe⟩ := not_not.mp valid
  dsimp only at wall₁ wall₂ wall₃ ⊢
  refine ⟨⟨page,methods,?_,safe,?_⟩,rfl,rfl,by omega⟩
  · rw [length]
    simp only [methodsValid,Bool.or_eq_true,decide_eq_true_eq] at methods
    rcases methods with (one | one) | two
    · rw [one]
      decide
    · rw [one]
      decide
    · rw [two]
      decide
  · intro chosen same
    have fits := (not_or.mp (not_or.mp last).2).2
    rw [same] at fits
    simpa using fits
theorem authorize_rows {identities : List Verified} {request : Authorisation} {after : Data} {response : GrantResponse}
    (accepted : options.accepted) (wall : 0 ≤ s.highestWall) (drawn : FreshDraws world data s)
    (resolving : Resolving data)
    (rows : Rows request.moreRevisions request.moreGenerations data)
    (done : authorize world options identities request data s = (.ok (response,after),s')) : Rows 0 0 after := by
  simp only [authorize,bind_ok,pure_ok] at done
  obtain ⟨_,s₁,checked,⟨records,enrolled⟩,s₂,enrolling,adjusted,s₃,adjusting,revoked,s₄,revoking,⟨value,issued⟩,s₅,
    issuing,response',_,_,same,_⟩ := done
  cases same
  obtain ⟨formed,ids,tokens,later⟩ := checkAuthorisation_checked checked
  obtain ⟨pair,_,_⟩ := checkAuthorisation_ok checked
  obtain ⟨enrolment,names,known,quiet,wall'⟩ := enrolAll_ok identities enrolling
  have length : records.length = identities.length := by simpa using congrArg List.length names
  have paired : request.link = true → 2 ≤ records.length := fun linked => by rw [length,pair linked]
  have room : 1 + request.moreRevisions ≤ maxSafe ∧ 1 + request.moreGenerations ≤ maxSafe := by
    unfold Authorisation.moreRevisions Authorisation.moreGenerations
    have large : (3 : Int) ≤ maxSafe := by decide
    constructor <;> split <;> split <;> omega
  have new : NewIds world data s₁ identities.length := by
    have few := formed.length
    refine ⟨fun k low high => drawn.ids.fresh k (by omega) (by omega),?_⟩
    exact fun i j low less high => drawn.ids.apart i j (by omega) less (by omega)
  have enrolledRows := enrolAll_rows accepted.1 room identities drawn.digest rows new enrolling
  have resolving := enrolAll_resolving identities resolving enrolling
  obtain ⟨_,own,grants⟩ := adjustAccount_resolving resolving paired adjusting
  have adjustedRows := adjustAccount_rows resolving formed.limit paired enrolledRows adjusting
  have kept : s₃ = s₂ := by
    simp only [adjustAccount,bind_ok,require_ok,pure_ok] at adjusting
    obtain ⟨_,_,⟨_,rfl⟩,_,_,⟨_,rfl⟩,linked,_,linking,_,rfl⟩ := adjusting
    exact (linkRecords_ok paired linking).1
  obtain ⟨rfl,revokes,_⟩ := revokeEarlier_ok revoking
  have revokedRows : Rows 0 0 revoked := by
    rw [revokes]
    split
    · exact revokedWhere_rows adjustedRows _ _
    · exact adjustedRows
  have own' : held revoked.accounts adjusted.1.1 = some (.balance adjusted.1.2) := by
    rw [revokes]
    split <;> exact own
  have tokens' : revoked.grants.map (·.token) = data.grants.map (·.token) := by
    rw [← enrolment.grants,← grants,revokes]
    split
    · unfold revokedWhere
      rw [List.map_map]
      refine List.map_congr_left (fun grant _ => ?_)
      dsimp only [Function.comp]
      split <;> rfl
    · rfl
  have token : NewToken world revoked s₄ := by
    unfold NewToken
    rw [tokens',kept,quiet.tokens,tokens]
    exact drawn.token
  refine (issue_rows (by have least := accepted.2.1.1; omega) ?_ ⟨formed.pagePubkey,formed.methods,
    formed.delegationExpiresAt,?_⟩ own' revokedRows
    le_rfl token issuing).1
  · rw [kept,wall']
    omega
  · dsimp only
    cases found : records.find? (fun record => record.method = "website") with
    | none => rfl
    | some record => exact (enrolledRows.identities record (known record (List.mem_of_find?_eq_some found))).1
theorem reserve_rows {token operationId : String} {bytes : Int} {after : Data} {reservation : Reservation}
    (rows : Rows revisions generations data)
    (done : reserve world options token operationId bytes data s =
      (.ok (reservation,after),s')) : Rows revisions generations after := by
  simp only [reserve,bind_ok,refuseIf_ok,pure_ok] at done
  obtain ⟨found,_,granted,_,_,⟨valid,rfl⟩,_,_,⟨_,rfl⟩,_,_,⟨_,rfl⟩,_,_,_,same,_⟩ := done
  cases same
  obtain ⟨usable,_,_,_,_⟩ := grant_ok granted
  obtain ⟨named,sized⟩ := not_not.mp valid
  split_ifs with known
  · exact rows
  · have fresh : data.decision token operationId = none := by
      unfold Data.decision
      simpa using known
    have fresh' : data.operations.find? (fun o => o.grant = token && o.operationId = operationId) = none := fresh
    rw [fresh']
    refine recorded_rows rows (canonical_iff.mp usable.account).balance ?_ named sized fresh
    rw [← usable.token]
    exact List.mem_map_of_mem usable.member
theorem renew_rows {token operationId : String} {websiteIdentity : Option String} {after : Data}
    {response : GrantResponse}
    (accepted : options.accepted) (wall : 0 ≤ s.highestWall) (new : NewToken world data s)
    (rows : Rows revisions generations data)
    (positive : 0 ≤ revisions)
    (done : renew world options token operationId websiteIdentity data s = (.ok (response,after),s')) :
    Rows revisions generations after := by
  simp only [renew,bind_ok,refuseIf_ok] at done
  obtain ⟨found,s₁,granted,_,_,⟨valid,rfl⟩,rest⟩ := done
  obtain ⟨usable,_,tokens,_,later⟩ := grant_ok granted
  cases renewal : found.1.renewal with
  | some renewal' =>
    simp only [renewal,repeatRenewal,bind_ok,refuseIf_ok,pure_ok] at rest
    obtain ⟨_,_,⟨_,rfl⟩,_,_,_,_,_,_,same,_⟩ := rest
    cases same
    exact rows
  | none =>
    simp only [renewal,firstRenewal,bind_ok,pure_ok] at rest
    obtain ⟨⟨value,issued⟩,_,issuing,_,_,_,same,_⟩ := rest
    cases same
    have old := rows.grants found.1 usable.member
    have token' : NewToken world data s₁ := by
      unfold NewToken
      rw [tokens]
      exact new
    obtain ⟨issuedRows,made⟩ := issue_rows (by have least := accepted.2.1.1; omega) (by omega)
      ⟨old.pagePubkey,old.methods,old.delegationExpiresAt,old.websiteIdentity⟩ (canonical_iff.mp usable.account).balance
        rows positive token' issuing
    exact renewed_rows issuedRows (not_not.mp valid).1 made.token
/-- How many revisions, and generations, a request may add to an account. -/
def Request.moreRevisions : Request → Int
  | .authorize _ request => request.moreRevisions
  | _ => 0
def Request.moreGenerations : Request → Int
  | .authorize _ request => request.moreGenerations
  | _ => 0
theorem operation_rows {request : Request} {after : Data} {answer : Answer} (accepted : options.accepted)
    (wall : 0 ≤ s.highestWall)
    (drawn : FreshDraws world data s) (resolving : Resolving data)
    (rows : Rows request.moreRevisions request.moreGenerations data)
    (done : request.operation world options data s = (.ok (answer,after),s')) : Rows 0 0 after := by
  cases request with
  | authorize identities request =>
    simp only [Request.operation,bind_ok,pure_ok] at done
    obtain ⟨⟨response,after'⟩,_,answered,same,_⟩ := done
    cases same
    exact authorize_rows accepted wall drawn resolving rows answered
  | inspectGrant token =>
    simp only [Request.operation,bind_ok,pure_ok] at done
    obtain ⟨_,_,_,same,_⟩ := done
    cases same
    exact rows
  | reserve token operationId bytes =>
    simp only [Request.operation,bind_ok,pure_ok] at done
    obtain ⟨⟨reservation,after'⟩,_,answered,same,_⟩ := done
    cases same
    exact reserve_rows rows answered
  | renew token operationId websiteIdentity =>
    simp only [Request.operation,bind_ok,pure_ok] at done
    obtain ⟨⟨response,after'⟩,_,answered,same,_⟩ := done
    cases same
    exact renew_rows accepted wall drawn.token rows le_rfl answered
  | revokeGrant token =>
    simp only [Request.operation,bind_ok,pure_ok] at done
    obtain ⟨revoked,_,revoking,same,_⟩ := done
    cases same
    simp only [revokeGrant,bind_ok] at revoking
    obtain ⟨found,_,_,revoking⟩ := revoking
    obtain ⟨_,_,rfl⟩ := revokeWhere_ok revoking
    exact revokedWhere_rows rows _ _

end
end RelaySwarm.Ledger
