import RelaySwarm.LedgerAccounts
import Mathlib.Algebra.BigOperators.Group.List.Basic

/-!
The book of charges. A charge is owed by the balance its account stands for, and a
list of accounts is balanced against a book when each balance has spent what is owed
by it (`Balanced`). Charging, linking, resetting and opening accounts keep the
balance; a balanced list has spent the whole book (`Balanced.total`).
-/
namespace RelaySwarm.Ledger

variable {accounts : List Account} {owner : String} {b b' : Balance}
/-- A charge of an accepted operation, and the account its grant was given on. -/
structure Charge where
  grant : String
  operationId : String
  account : String
  bytes : Int
deriving DecidableEq

/-- The account with the balance that an account stands for. -/
def payer (accounts : List Account) (id : String) : Option String :=
  (canonicalFrom accounts (accounts.length + 1) id).map (·.1)
/-- What a balance owes: the charges of the accounts that stand for it. -/
def owed (accounts : List Account) (book : List Charge) (id : String) : Int :=
  ((book.filter (fun charge => payer accounts charge.account = some id)).map (·.bytes)).sum
/-- What an account has spent; an alias has spent nothing itself. -/
def Account.spent (account : Account) : Int :=
  match account.holding with
  | .balance b => b.spent
  | .aliasTo _ => 0
def totalSpent (accounts : List Account) : Int := (accounts.map (·.spent)).sum

/-- Every charge has an owner, and every balance has spent what it owes. -/
structure Balanced (accounts : List Account) (book : List Charge) : Prop where
  owned : ∀ charge ∈ book, ∃ owner, Resolves accounts charge.account owner
  even : ∀ id b, held accounts id = some (.balance b) → b.spent = owed accounts book id

theorem payer_eq {id : String} {owner : String × Balance}
    (resolves : Resolves accounts id owner) : payer accounts id = some owner.1 := by
  have found : canonical ⟨"",0,accounts,[],[],[]⟩ id = some owner := canonical_iff.mpr resolves
  exact congrArg (Option.map (·.1)) found
theorem owed_congr {accounts others : List Account} {book : List Charge}
    (same : ∀ charge ∈ book, payer others charge.account = payer accounts charge.account) (id : String) :
    owed others book id = owed accounts book id := by
  unfold owed
  rw [List.filter_congr fun charge member => by rw [same charge member]]
theorem owed_append (accounts : List Account) (book : List Charge) (charge : Charge) (id : String) :
    owed accounts (book ++ [charge]) id =
      owed accounts book id + if payer accounts charge.account = some id then charge.bytes else 0 := by
  unfold owed
  by_cases mine : payer accounts charge.account = some id <;> simp [List.filter_append,mine]
theorem owed_none {book : List Charge} {id : String}
    (none : ∀ charge ∈ book, payer accounts charge.account ≠ some id) : owed accounts book id = 0 := by
  unfold owed
  rw [List.filter_eq_nil_iff.mpr fun charge member => by simpa using none charge member]
  rfl

/-! ### What keeps the balance -/

section
variable {accounts others : List Account} {book : List Charge}

theorem Balanced.charged (balanced : Balanced accounts book) {charge : Charge}
    (mine : Resolves accounts charge.account (owner,b)) (cost : b'.spent = b.spent + charge.bytes)
    (after : ∀ id, held others id = if id = owner then some (.balance b') else held accounts id) :
    Balanced others (book ++ [charge]) := by
  have before : held accounts owner = some (.balance b) := mine.balance
  have follows {id : String} {o : String × Balance} (resolves : Resolves accounts id o) :
      ∃ o', Resolves others id o' ∧ o'.1 = o.1 := by
    refine ⟨_,resolves.spent before after,?_⟩
    split_ifs with same
    · exact same.symm
    · rfl
  have same : ∀ c ∈ book, payer others c.account = payer accounts c.account := by
    intro c member
    obtain ⟨o,resolves⟩ := balanced.owned c member
    obtain ⟨o',resolves',equal⟩ := follows resolves
    rw [payer_eq resolves,payer_eq resolves',equal]
  obtain ⟨o',mine',equal⟩ := follows mine
  refine ⟨fun c member => ?_,fun id held' there => ?_⟩
  · rcases List.mem_append.mp member with old | new
    · obtain ⟨o,resolves⟩ := balanced.owned c old
      obtain ⟨o',resolves',_⟩ := follows resolves
      exact ⟨o',resolves'⟩
    · rw [List.mem_singleton.mp new]; exact ⟨o',mine'⟩
  · rw [owed_append,owed_congr same,payer_eq mine',equal]
    rw [after] at there
    by_cases here : id = owner
    · subst here
      rw [if_pos rfl] at there
      cases there
      rw [if_pos rfl,cost,balanced.even _ _ before]
    · rw [if_neg here] at there
      rw [if_neg (fun same => here (Option.some.inj same).symm),add_zero]
      exact balanced.even id held' there
theorem Balanced.unspent (balanced : Balanced accounts book)
    (before : held accounts owner = some (.balance b)) (cost : b'.spent = b.spent)
    (after : ∀ id, held others id = if id = owner then some (.balance b') else held accounts id) :
    Balanced others book := by
  have charged : Balanced others (book ++ [⟨"","",owner,0⟩]) :=
    balanced.charged (.here before) (by simpa using cost) after
  refine ⟨fun c member => charged.owned c (List.mem_append_left _ member),fun id held' there => ?_⟩
  have even := charged.even id held' there
  rw [owed_append] at even
  simpa using even
theorem Balanced.reset (balanced : Balanced accounts book)
    (before : held accounts owner = some (.balance b)) (cleared : b'.spent = 0)
    (after : ∀ id, held others id = if id = owner then some (.balance b') else held accounts id) :
    Balanced others (book.filter (fun charge => payer others charge.account ≠ some owner)) := by
  have same : ∀ c ∈ book, payer others c.account = payer accounts c.account ∧ ∃ o', Resolves others c.account o' := by
    intro c member
    obtain ⟨o,resolves⟩ := balanced.owned c member
    have resolves' := resolves.spent before after
    refine ⟨?_,_,resolves'⟩
    rw [payer_eq resolves,payer_eq resolves']
    split_ifs with equal
    · rw [equal]
    · rfl
  refine ⟨fun c member => (same c (List.mem_of_mem_filter member)).2,fun id held' there => ?_⟩
  rw [after] at there
  by_cases here : id = owner
  · subst here
    rw [if_pos rfl] at there
    cases there
    rw [cleared,owed_none]
    intro c member
    simpa using (List.mem_filter.mp member).2
  · rw [if_neg here] at there
    rw [balanced.even id held' there,← owed_congr fun c member => (same c member).1]
    unfold owed
    rw [List.filter_filter]
    congr 2
    refine List.filter_congr fun c _ => ?_
    by_cases mine : payer others c.account = some id <;> simp [mine,here]
theorem Balanced.opened {fresh : List Account} (balanced : Balanced accounts book)
    (new : ∀ account ∈ fresh, ∃ b, account.holding = .balance b ∧ b.spent = 0) : Balanced (accounts ++ fresh) book := by
  have same : ∀ c ∈ book, payer (accounts ++ fresh) c.account = payer accounts c.account := by
    intro c member
    obtain ⟨o,resolves⟩ := balanced.owned c member
    rw [payer_eq resolves,payer_eq resolves.append]
  refine ⟨fun c member => ?_,fun id b there => ?_⟩
  · obtain ⟨o,resolves⟩ := balanced.owned c member
    exact ⟨o,resolves.append⟩
  · rw [owed_congr same]
    cases old : held accounts id with
    | some h =>
      rw [held_append old] at there
      cases there
      exact balanced.even id b old
    | none =>
      have later : ∃ account ∈ fresh, account.holding = .balance b := by
        unfold held at old there
        rw [Option.map_eq_none_iff] at old
        rw [List.find?_append,old,Option.none_or] at there
        obtain ⟨account,seen,holding⟩ := Option.map_eq_some_iff.mp there
        exact ⟨account,List.mem_of_find?_eq_some seen,holding⟩
      obtain ⟨account,member,holding⟩ := later
      obtain ⟨b',holding',zero⟩ := new account member
      rw [holding] at holding'
      cases holding'
      rw [zero,owed_none]
      intro c charged mine
      obtain ⟨o,resolves⟩ := balanced.owned c charged
      rw [payer_eq resolves,Option.some.injEq] at mine
      have known := resolves.balance
      rw [mine,old] at known
      cases known
theorem Balanced.linked (balanced : Balanced accounts book) {survivor other : String} {b o b' : Balance}
    (apart : other ≠ survivor) (mine : held accounts survivor = some (.balance b))
    (theirs : held accounts other = some (.balance o)) (sum : b'.spent = b.spent + o.spent)
    (after : ∀ id, held others id = if id = other then some (.aliasTo survivor)
      else if id = survivor then some (.balance b') else held accounts id) : Balanced others book := by
  have moved : ∀ c ∈ book, ∃ owner owner', Resolves accounts c.account owner ∧ Resolves others c.account owner' ∧
      owner'.1 = if owner.1 = survivor ∨ owner.1 = other then survivor else owner.1 := by
    intro c member
    obtain ⟨owner,resolves⟩ := balanced.owned c member
    refine ⟨owner,_,resolves,resolves.linked apart mine theirs after,?_⟩
    split_ifs <;> rfl
  refine ⟨fun c member => ?_,fun id held' there => ?_⟩
  · obtain ⟨_,owner',_,resolves',_⟩ := moved c member
    exact ⟨owner',resolves'⟩
  · rw [after] at there
    by_cases gone : id = other
    · rw [if_pos gone] at there
      cases there
    rw [if_neg gone] at there
    by_cases here : id = survivor
    · subst here
      rw [if_pos rfl] at there
      cases there
      rw [sum,balanced.even _ _ mine,balanced.even _ _ theirs]
      -- a charge is owed by the survivor now exactly when one of the two owed it
      clear balanced
      induction book with
      | nil => rfl
      | cons c rest ih =>
        obtain ⟨owner,owner',resolves,resolves',equal⟩ := moved c (by simp)
        have rest' := ih fun c member => moved c (List.mem_cons_of_mem _ member)
        unfold owed at rest' ⊢
        simp only [List.filter_cons,payer_eq resolves,payer_eq resolves',equal,Option.some.injEq]
        by_cases first : owner.1 = id
        · have second : owner.1 ≠ other := by rw [first]; exact apart.symm
          simp [first,Ne.symm apart] at second ⊢
          omega
        · by_cases second : owner.1 = other
          · simp [second,apart] at rest' ⊢
            omega
          · simp [first,second] at rest' ⊢
            omega
    · rw [if_neg here] at there
      rw [balanced.even id held' there]
      unfold owed
      congr 2
      refine List.filter_congr fun c member => ?_
      obtain ⟨owner,owner',resolves,resolves',equal⟩ := moved c member
      rw [payer_eq resolves,payer_eq resolves',equal]
      split_ifs with merged
      · rcases merged with same | same <;> simp [same,Ne.symm here,Ne.symm gone]
      · rfl

theorem sum_once {ids : List String} (distinct : ids.Nodup) (member : owner ∈ ids) (n : Int) :
    (ids.map (fun id => if owner = id then n else 0)).sum = n := by
  induction ids with
  | nil => cases member
  | cons id rest ih =>
    obtain ⟨absent,distinct⟩ := List.nodup_cons.mp distinct
    rw [List.map_cons,List.sum_cons]
    by_cases here : owner = id
    · have none : (rest.map (fun id => if owner = id then n else 0)).sum = 0 := by
        refine List.sum_eq_zero fun x member => ?_
        obtain ⟨other,later,rfl⟩ := List.mem_map.mp member
        exact if_neg (by rintro rfl; exact absent (here ▸ later))
      rw [if_pos here,none,add_zero]
    · rw [if_neg here,ih distinct (List.mem_of_ne_of_mem here member),zero_add]
theorem sum_owed {ids : List String} (distinct : ids.Nodup)
    (owned : ∀ charge ∈ book, ∃ owner ∈ ids, payer accounts charge.account = some owner) :
    (ids.map (owed accounts book)).sum = (book.map (·.bytes)).sum := by
  induction book with
  | nil => exact List.sum_eq_zero fun x member => by obtain ⟨_,_,rfl⟩ := List.mem_map.mp member; rfl
  | cons charge rest ih =>
    obtain ⟨owner,member,mine⟩ := owned charge (by simp)
    have each : ∀ id, owed accounts (charge :: rest) id =
        (if owner = id then charge.bytes else 0) + owed accounts rest id := by
      intro id
      unfold owed
      by_cases here : owner = id <;> simp [mine,here]
    rw [funext each,List.sum_map_add,sum_once distinct member,List.map_cons,List.sum_cons,
      ih fun charge member => owned charge (List.mem_cons_of_mem _ member)]
theorem held_member (distinct : (accounts.map (·.id)).Nodup) {account : Account} (member : account ∈ accounts) :
    held accounts account.id = some account.holding := by
  induction accounts with
  | nil => cases member
  | cons first rest ih =>
    obtain ⟨absent,distinct⟩ := List.nodup_cons.mp distinct
    rcases List.mem_cons.mp member with rfl | later
    · simp [held]
    · have differs : ¬ first.id = account.id := fun same => absent (List.mem_map.mpr ⟨account,later,same.symm⟩)
      have rest' := ih distinct later
      unfold held at rest' ⊢
      simpa [differs] using rest'
theorem Balanced.total (balanced : Balanced accounts book) (distinct : (accounts.map (·.id)).Nodup) :
    totalSpent accounts = (book.map (·.bytes)).sum := by
  have each : ∀ account ∈ accounts, account.spent = owed accounts book account.id := by
    intro account member
    have there := held_member distinct member
    unfold Account.spent
    cases holding : account.holding with
    | balance b =>
      rw [holding] at there
      exact balanced.even _ _ there
    | aliasTo next =>
      rw [holding] at there
      refine (owed_none fun charge charged mine => ?_).symm
      obtain ⟨owner,resolves⟩ := balanced.owned charge charged
      rw [payer_eq resolves,Option.some.injEq] at mine
      have known := resolves.balance
      rw [mine,there] at known
      cases known
  have sums : totalSpent accounts = ((accounts.map (·.id)).map (owed accounts book)).sum := by
    unfold totalSpent
    rw [List.map_map]
    exact congrArg List.sum (List.map_congr_left each)
  rw [sums,sum_owed distinct]
  intro charge charged
  obtain ⟨owner,resolves⟩ := balanced.owned charge charged
  exact ⟨owner.1,held_known resolves.balance,payer_eq resolves⟩
end

end RelaySwarm.Ledger
