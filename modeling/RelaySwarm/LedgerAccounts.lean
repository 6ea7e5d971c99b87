import RelaySwarm.LedgerSteps

/-!
Accounts and their aliases. An account stands for the balance at the end of its
aliases (`Resolves`), which no order of lookups changes. Spending changes one
balance; linking turns one balance into an alias of another, and what either
stood for is the survivor from then on (`Resolves.linked`).
-/
namespace RelaySwarm.Ledger
open Effect

variable {accounts : List Account} {b : Balance} {owner : String × Balance}
/-- What the account with an identifier holds. -/
def held (accounts : List Account) (id : String) : Option Holding :=
  (accounts.find? (·.id = id)).map (·.holding)
/-- Following aliases from an account ends at a balance. -/
inductive Resolves (accounts : List Account) : String → String × Balance → Prop
  | here {id : String} {b : Balance} (balance : held accounts id = some (.balance b)) : Resolves accounts id (id,b)
  | step {id next : String} {owner : String × Balance} (points : held accounts id = some (.aliasTo next))
      (rest : Resolves accounts next owner) : Resolves accounts id owner

theorem Resolves.unique {id : String} {a b : String × Balance} (first : Resolves accounts id a)
    (second : Resolves accounts id b) : a = b := by
  induction first with
  | here balance =>
    cases second with
    | here balance' => rw [balance] at balance'; cases balance'; rfl
    | step points _ => rw [balance] at points; cases points
  | step points _ ih =>
    cases second with
    | here balance => rw [points] at balance; cases balance
    | step points' rest => rw [points] at points'; cases points'; exact ih rest
theorem Resolves.balance {id : String}
    (resolves : Resolves accounts id owner) : held accounts owner.1 = some (.balance owner.2) := by
  induction resolves with
  | here balance => exact balance
  | step _ _ ih => exact ih
theorem canonicalFrom_resolves (steps : Nat) : ∀ {id : String} {owner : String × Balance},
    canonicalFrom accounts steps id = some owner → Resolves accounts id owner := by
  induction steps with
  | zero => intro id owner found; cases found
  | succ steps ih =>
    intro id owner found
    unfold canonicalFrom at found
    cases seen : accounts.find? (·.id = id) with
    | none => rw [seen] at found; cases found
    | some account =>
      have same : account.id = id := by simpa using List.find?_some seen
      simp only [seen] at found
      cases holding : account.holding with
      | balance b =>
        simp only [holding,Option.some.injEq] at found
        subst found
        rw [same]
        exact .here (by simp [held,seen,holding])
      | aliasTo next =>
        simp only [holding] at found
        exact .step (by simp [held,seen,holding]) (ih found)
theorem canonicalFrom_succ (steps : Nat) : ∀ {id : String} {owner : String × Balance},
    canonicalFrom accounts steps id = some owner → canonicalFrom accounts (steps + 1) id = some owner := by
  induction steps with
  | zero => intro id owner found; cases found
  | succ steps ih =>
    intro id owner found
    rw [canonicalFrom] at found ⊢
    cases seen : accounts.find? (·.id = id) with
    | none => rw [seen] at found; cases found
    | some account =>
      simp only [seen] at found ⊢
      cases holding : account.holding with
      | balance b => simpa only [holding] using found
      | aliasTo next =>
        simp only [holding] at found ⊢
        exact ih found
theorem canonicalFrom_mono {few many : Nat} (less : few ≤ many) {id : String}
    (found : canonicalFrom accounts few id = some owner) :
    canonicalFrom accounts many id = some owner := by
  induction less with
  | refl => exact found
  | step _ ih => exact canonicalFrom_succ _ ih
theorem canonicalFrom_alias {id next : String} (points : held accounts id = some (.aliasTo next))
    (steps : Nat) : canonicalFrom accounts (steps + 1) id = canonicalFrom accounts steps next := by
  obtain ⟨account,seen,holding⟩ := Option.map_eq_some_iff.mp points
  rw [canonicalFrom]
  simp only [seen,holding]
theorem canonicalFrom_balance {id : String}
    (balance : held accounts id = some (.balance b)) (steps : Nat) :
    canonicalFrom accounts (steps + 1) id = some (id,b) := by
  obtain ⟨account,seen,holding⟩ := Option.map_eq_some_iff.mp balance
  have same : account.id = id := by simpa using List.find?_some seen
  rw [canonicalFrom]
  simp only [seen,holding,same]
theorem held_known {id : String} {h : Holding} (known : held accounts id = some h) :
    id ∈ accounts.map (·.id) := by
  obtain ⟨account,seen,_⟩ := Option.map_eq_some_iff.mp known
  have same : account.id = id := by simpa using List.find?_some seen
  exact List.mem_map.mpr ⟨account,List.mem_of_find?_eq_some seen,same⟩
/-- The accounts on the way to a balance are different, so following it takes no more
    steps than there are accounts. -/
theorem Resolves.path {id : String}
    (resolves : Resolves accounts id owner) : ∃ path : List String, path.Nodup ∧ path ⊆ accounts.map (·.id) ∧
      0 < path.length ∧ canonicalFrom accounts path.length id = some owner ∧
      canonicalFrom accounts (path.length - 1) id = none ∧
      ∀ x ∈ path, (canonicalFrom accounts path.length x).isSome = true := by
  induction resolves with
  | @here id b balance =>
    have found := canonicalFrom_balance balance 0
    exact ⟨[id],by simp,by simpa using held_known balance,by simp,found,rfl,by
      intro x member; rw [List.mem_singleton.mp member]; exact Option.isSome_of_eq_some found⟩
  | @step id next owner points _ ih =>
    obtain ⟨path,distinct,known,long,found,early,some⟩ := ih
    have first : canonicalFrom accounts path.length id = none := by
      rw [← Nat.sub_add_cancel long,canonicalFrom_alias points]
      exact early
    have found' : canonicalFrom accounts (path.length + 1) id = Option.some owner := by
      rw [canonicalFrom_alias points]
      exact found
    refine ⟨id :: path,List.nodup_cons.mpr ⟨fun visited => ?_,distinct⟩,?_,by simp,found',first,?_⟩
    · have again := some id visited
      rw [first] at again
      cases again
    · exact List.cons_subset.mpr ⟨held_known points,known⟩
    · intro x member
      rcases List.mem_cons.mp member with rfl | later
      · exact Option.isSome_of_eq_some found'
      · obtain ⟨last,lies⟩ := Option.isSome_iff_exists.mp (some x later)
        exact Option.isSome_of_eq_some (canonicalFrom_succ _ lies)
theorem canonical_iff {data : Data} {id : String} :
    canonical data id = some owner ↔ Resolves data.accounts id owner := by
  refine ⟨canonicalFrom_resolves _,fun resolves => ?_⟩
  obtain ⟨path,distinct,known,_,found,_,_⟩ := resolves.path
  have short : path.length ≤ data.accounts.length := by
    simpa using (List.subperm_of_subset distinct known).length_le
  exact canonicalFrom_mono (by omega) found
theorem valid_resolves {options : Options} {data : Data} (valid : data.valid options) {id : String}
    (known : id ∈ data.accounts.map (·.id)) : ∃ owner, canonical data id = some owner := by
  obtain ⟨account,member,rfl⟩ := List.mem_map.mp known
  have checked := valid.2.2.1 account member
  simp only [accountValid,Bool.and_eq_true] at checked
  exact Option.isSome_iff_exists.mp checked.2

theorem held_append {accounts more : List Account} {id : String} {h : Holding} (known : held accounts id = some h) :
    held (accounts ++ more) id = some h := by
  obtain ⟨account,seen,rfl⟩ := Option.map_eq_some_iff.mp known
  simp [held,List.find?_append,seen]
theorem Resolves.append {accounts more : List Account} {id : String}
    (resolves : Resolves accounts id owner) : Resolves (accounts ++ more) id owner := by
  induction resolves with
  | here balance => exact .here (held_append balance)
  | step points _ ih => exact .step (held_append points) ih

theorem replaceHolding_ids (id : String) (h : Holding) (accounts : List Account) :
    (replaceHolding id h accounts).map (·.id) = accounts.map (·.id) := by
  induction accounts with
  | nil => rfl
  | cons account rest ih =>
    unfold replaceHolding
    split_ifs <;> simp [ih]
theorem held_replace {id : String} (known : id ∈ accounts.map (·.id)) (h : Holding)
    (other : String) : held (replaceHolding id h accounts) other = if other = id then some h
      else held accounts other := by
  induction accounts with
  | nil => cases known
  | cons account rest ih =>
    unfold replaceHolding
    by_cases here : account.id = id
    · rw [if_pos here]
      by_cases same : other = id
      · subst same; simp [held,here]
      · have differs : ¬ account.id = other := by rw [here]; exact Ne.symm same
        simp [held,differs,same]
    · rw [if_neg here]
      have later : id ∈ rest.map (·.id) := by
        rcases List.mem_cons.mp known with now | later
        · exact absurd now.symm here
        · exact later
      have rest' := ih later
      unfold held at rest' ⊢
      by_cases first : account.id = other
      · have differs : ¬ other = id := by rw [← first]; exact here
        simp [first,differs]
      · simpa [first] using rest'

theorem Resolves.spent {accounts others : List Account} {owner : String} {b b' : Balance}
    (before : held accounts owner = some (.balance b))
    (after : ∀ id, held others id = if id = owner then some (.balance b') else held accounts id) {id : String}
    {lies : String × Balance} (resolves : Resolves accounts id lies) :
    Resolves others id (if lies.1 = owner then (owner,b') else lies) := by
  induction resolves with
  | @here id _ balance =>
    dsimp only
    split_ifs with same
    · subst same; exact .here (by rw [after,if_pos rfl])
    · exact .here (by rw [after,if_neg same]; exact balance)
  | @step id next owner' points rest ih =>
    have differs : id ≠ owner := by
      rintro rfl
      rw [before] at points
      cases points
    exact .step (by rw [after,if_neg differs]; exact points) ih
/-- A balance becomes an alias of another: what it stood for is that one now. -/
theorem Resolves.linked {accounts others : List Account} {survivor other : String} {b o b' : Balance}
    (apart : other ≠ survivor) (mine : held accounts survivor = some (.balance b))
    (theirs : held accounts other = some (.balance o))
    (after : ∀ id, held others id = if id = other then some (.aliasTo survivor)
      else if id = survivor then some (.balance b') else held accounts id) {id : String} {lies : String × Balance}
    (resolves : Resolves accounts id lies) :
    Resolves others id (if lies.1 = survivor ∨ lies.1 = other then (survivor,b') else lies) := by
  have home : Resolves others survivor (survivor,b') := .here (by rw [after,if_neg apart.symm,if_pos rfl])
  induction resolves with
  | @here id _ balance =>
    dsimp only
    split_ifs with merged
    · rcases merged with rfl | rfl
      · exact home
      · exact .step (by rw [after,if_pos rfl]) home
    · obtain ⟨notMine,notTheirs⟩ := not_or.mp merged
      exact .here (by rw [after,if_neg notTheirs,if_neg notMine]; exact balance)
  | @step id next owner' points rest ih =>
    have notTheirs : id ≠ other := by
      rintro rfl
      rw [theirs] at points
      cases points
    have notMine : id ≠ survivor := by
      rintro rfl
      rw [mine] at points
      cases points
    exact .step (by rw [after,if_neg notTheirs,if_neg notMine]; exact points) ih

/-- Every account that stood for one balance stands for one balance later. -/
def Follows (before after : List Account) (f : String → String) : Prop :=
  ∀ id owner, Resolves before id owner → ∃ owner', Resolves after id owner' ∧ owner'.1 = f owner.1
theorem Follows.refl (accounts : List Account) : Follows accounts accounts id :=
  fun _ owner resolves => ⟨owner,resolves,rfl⟩
theorem Follows.trans {a b c : List Account} {f g : String → String} (first : Follows a b f) (second : Follows b c g) :
    Follows a c (g ∘ f) := by
  intro id owner resolves
  obtain ⟨owner₁,resolves₁,same₁⟩ := first id owner resolves
  obtain ⟨owner₂,resolves₂,same₂⟩ := second id owner₁ resolves₁
  exact ⟨owner₂,resolves₂,by rw [same₂,same₁]; rfl⟩
theorem Follows.append (accounts more : List Account) : Follows accounts (accounts ++ more) id :=
  fun _ owner resolves => ⟨owner,resolves.append,rfl⟩
theorem Follows.replace {owner : String}
    (before : held accounts owner = some (.balance b)) (b' : Balance) :
    Follows accounts (replaceHolding owner (.balance b') accounts) id := by
  intro id here resolves
  refine ⟨_,resolves.spent before (held_replace (held_known before) _),?_⟩
  split_ifs with same
  · exact same.symm
  · rfl
theorem Follows.linked {survivor other : String} {b o : Balance} (apart : other ≠ survivor)
    (mine : held accounts survivor = some (.balance b)) (theirs : held accounts other = some (.balance o))
    (b' : Balance) :
    Follows accounts (replaceHolding other (.aliasTo survivor) (replaceHolding survivor (.balance b') accounts))
      (fun id => if id = survivor ∨ id = other then survivor else id) := by
  intro id here resolves
  have after (id : String) :
      held (replaceHolding other (.aliasTo survivor) (replaceHolding survivor (.balance b') accounts)) id =
      if id = other then some (.aliasTo survivor) else if id = survivor then some (.balance b')
        else held accounts id := by
    rw [held_replace (by rw [replaceHolding_ids]; exact held_known theirs),held_replace (held_known mine)]
  refine ⟨_,resolves.linked apart mine theirs after,?_⟩
  dsimp only
  split_ifs <;> rfl

end RelaySwarm.Ledger
