import RelaySwarm.LedgerRuns
import Mathlib.Data.Set.Function

/-!
The grants over a run. A grant is only ever marked, as revoked or as renewed, or
pruned; a grant that appears has a token just drawn (`Moved`). So every token of the
state has been drawn, and the state is valid after every step (`Sound`).
-/
namespace RelaySwarm.Ledger
open Effect

/-- A grant as it is later: it may be revoked since, or renewed. -/
structure Marked (grant later : Grant) : Prop where
  same : later = { grant with revoked := later.revoked, renewal := later.renewal }
  revoked : grant.revoked = true → later.revoked = true
  renewal : ∀ renewal, grant.renewal = some renewal → later.renewal = some renewal
theorem Marked.refl (grant : Grant) : Marked grant grant := ⟨rfl,id,fun _ => id⟩
theorem Marked.token {grant later : Grant} (marked : Marked grant later) : later.token = grant.token := by
  rw [marked.same]
theorem Marked.accountId {grant later : Grant} (marked : Marked grant later) : later.accountId = grant.accountId := by
  rw [marked.same]
theorem Marked.pagePubkey {grant later : Grant} (marked : Marked grant later) :
    later.pagePubkey = grant.pagePubkey := by
  rw [marked.same]
theorem Marked.delegation {grant later : Grant} (marked : Marked grant later) :
    later.delegationExpiresAt = grant.delegationExpiresAt := by
  rw [marked.same]

/-- The token has been drawn. -/
def Drawn (world : World) (s : Side) (token : String) : Prop := ∃ n < s.tokens, world.token n = token
theorem Drawn.later {world : World} {s s' : Side} {token : String} (drawn : Drawn world s token)
    (more : s.tokens ≤ s'.tokens) : Drawn world s' token := by
  obtain ⟨n,low,same⟩ := drawn
  exact ⟨n,Nat.lt_of_lt_of_le low more,same⟩
/-- The random tokens drawn so far differ from one another. -/
def Distinct (world : World) (s : Side) : Prop := Set.InjOn world.token {n | n < s.tokens}
theorem Drawn.ne_next {world : World} {s s' : Side} (distinct : Distinct world s') (more : s.tokens < s'.tokens)
    {token : String} (drawn : Drawn world s token) : token ≠ world.token s.tokens := by
  obtain ⟨n,low,rfl⟩ := drawn
  exact fun same => Nat.ne_of_lt low (distinct (Nat.lt_trans low more) more same)

/-- How grants change: each was there before or has the token drawn next. -/
structure Moved (world : World) (s s' : Side) (before after : List Grant) : Prop where
  grants : ∀ later ∈ after, (∃ grant ∈ before, Marked grant later) ∨
    later.token = world.token s.tokens ∧ s.tokens < s'.tokens
  tokens : s.tokens ≤ s'.tokens
theorem Moved.refl {world : World} {s s' : Side} (tokens : s.tokens ≤ s'.tokens) (grants : List Grant) :
    Moved world s s' grants grants := ⟨fun grant member => .inl ⟨grant,member,Marked.refl _⟩,tokens⟩

section
variable {world : World} {options : Options}

theorem revokedWhere_grants {data : Data} {account : String} {selected : Grant → Bool} {later : Grant}
    (member : later ∈ (revokedWhere data account selected).grants) : ∃ grant ∈ data.grants, Marked grant later := by
  obtain ⟨grant,there,rfl⟩ := List.mem_map.mp member
  refine ⟨grant,there,?_⟩
  split_ifs
  · exact ⟨rfl,fun _ => rfl,fun _ => id⟩
  · exact Marked.refl grant
theorem setRenewal_grants {token : String} {renewal : Renewal} {grants : List Grant} {later : Grant}
    (member : later ∈ setRenewal token renewal grants) : later ∈ grants ∨
      ∃ grant, grants.find? (·.token = token) = some grant ∧
        later = { grant with renewal := some renewal } := by
  induction grants with
  | nil => cases member
  | cons grant rest ih =>
    unfold setRenewal at member
    by_cases here : grant.token = token
    · rw [if_pos here] at member
      rcases List.mem_cons.mp member with rfl | there
      · exact .inr ⟨grant,by simp [here],rfl⟩
      · exact .inl (List.mem_cons_of_mem _ there)
    · rw [if_neg here] at member
      rcases List.mem_cons.mp member with rfl | there
      · exact .inl (List.mem_cons_self ..)
      · rcases ih there with old | ⟨found,seen,same⟩
        · exact .inl (List.mem_cons_of_mem _ old)
        · exact .inr ⟨found,by simpa [here] using seen,same⟩

theorem Authorised.grants {data after : Data} {identities : List Verified} {request : Authorisation} {s s' : Side}
    {response : GrantResponse} {p : Passage}
    (done : Authorised world options data identities request s response after s' p) :
    after.grants = p.revoked.grants ++ [p.value] ∧ (p.adjusted request).2.grants = data.grants ∧
      p.value.token = world.token s.tokens := by
  refine ⟨by rw [done.issued.issued],?_,by rw [done.issued.shape]⟩
  have linked : p.linked.2.grants = p.enrolled.grants := by
    have links := done.linked
    generalize linkedTo p.enrolled p.records request.link = other at links
    generalize p.linked = linked at links
    cases links <;> rfl
  have adjusted : (p.adjusted request).2.grants = p.linked.2.grants := by
    unfold Passage.adjusted applySettings
    cases request.settings <;> rfl
  rw [adjusted,linked,done.enrolled.grants]
theorem Did.moved {data after : Data} {request : Request} {answer : Answer} {s s' : Side}
    (did : Did world options data s request answer after s') : Moved world s s' data.grants after.grants := by
  cases did with
  | @authorised identities request response after s' p done =>
    obtain ⟨grants,adjusted,token⟩ := done.grants
    have more : s.tokens < s'.tokens := by rw [done.issued.tokens]; omega
    refine ⟨fun later member => ?_,Nat.le_of_lt more⟩
    rw [grants] at member
    rcases List.mem_append.mp member with old | new
    · rw [done.revoked] at old
      split_ifs at old
      · obtain ⟨grant,there,marked⟩ := revokedWhere_grants old
        exact .inl ⟨grant,by rwa [adjusted] at there,marked⟩
      · exact .inl ⟨later,by rwa [adjusted] at old,Marked.refl _⟩
    · rw [List.mem_singleton.mp new]
      exact .inr ⟨token,more⟩
  | inspected usable quiet => exact Moved.refl (Nat.le_of_eq quiet.tokens.symm) _
  | duplicate usable quiet => exact Moved.refl (Nat.le_of_eq quiet.tokens.symm) _
  | decided usable quiet => exact Moved.refl (Nat.le_of_eq quiet.tokens.symm) _
  | repeated usable quiet => exact Moved.refl (Nat.le_of_eq quiet.tokens.symm) _
  | @renewed token operationId website response value issued found s' usable new done answer =>
    have more : s.tokens < s'.tokens := by rw [done.tokens]; omega
    have drawn : value.token = world.token s.tokens := by rw [done.shape]
    refine ⟨fun later member => ?_,Nat.le_of_lt more⟩
    rw [done.issued] at member
    rcases setRenewal_grants member with old | ⟨grant,seen,rfl⟩
    · rcases List.mem_append.mp old with old | new
      · exact .inl ⟨later,old,Marked.refl _⟩
      · rw [List.mem_singleton.mp new]
        exact .inr ⟨drawn,more⟩
    · -- the one that gets its successor is the one that was found, which had none
      rw [List.find?_append,usable.seen,Option.some_or,Option.some.injEq] at seen
      subst seen
      refine .inl ⟨found.1,usable.member,rfl,id,fun renewal had => ?_⟩
      rw [new] at had
      cases had
  | @revoked token found s' usable quiet resolved =>
    exact ⟨fun later member => .inl (revokedWhere_grants member),Nat.le_of_eq quiet.tokens.symm⟩

/-- What a request leaves of the grants and operations it finds. -/
structure Applied.Frame (world : World) (working : Data) (s : Side) (next : Data) (s' : Side) (base result : Data) :
    Prop where
  sub : base.grants.Sublist working.grants
  accounts : base.accounts = working.accounts
  identities : base.identities = working.identities
  secret : base.secret = working.secret
  operations : base.operations.Sublist working.operations
  live : ∀ o ∈ working.operations, o.grant ∈ base.grants.map (·.token) → o ∈ base.operations
  result : ∃ here, next = { result with lastWall := here }
  moved : Moved world s s' working.grants next.grants
theorem Applied.frame {request : Request} {working next base result : Data} {answer : Answer} {s s' s₁ s₂ : Side}
    (applied : Applied world options request working s answer next s' base result s₁ s₂) :
    Applied.Frame world working s next s' base result := by
  have moved := applied.did.moved
  have pruned := applied.pruned
  have committed := applied.committed
  have onwards {grants : List Grant} (sub : base.grants.Sublist working.grants) (same : grants = result.grants) :
      Moved world s s' working.grants grants := by
    refine ⟨fun later member => ?_,?_⟩
    · rw [same] at member
      rcases moved.grants later member with ⟨grant,there,marked⟩ | ⟨token,more⟩
      · exact .inl ⟨grant,sub.subset there,marked⟩
      · exact .inr ⟨by rw [token,applied.tokens],by rw [applied.quiet.tokens,← applied.tokens]; exact more⟩
    · rw [applied.quiet.tokens,← applied.tokens]; exact moved.tokens
  by_cases write : request.write = true
  · rw [if_pos write] at pruned committed
    obtain ⟨valid,here,rfl⟩ := committed
    refine ⟨pruned.grants,pruned.accounts,pruned.identities,pruned.secret,?_,fun o member live => ?_,⟨here,rfl⟩,
      onwards pruned.grants rfl⟩
    · rw [pruned.operations]; exact List.filter_sublist
    · rw [pruned.operations]; exact List.mem_filter.mpr ⟨member,by simpa using live⟩
  · rw [if_neg write] at pruned committed
    cases pruned
    cases committed
    -- only an inspection does not write, and it leaves the state as it is
    have same : result = working := by
      have did := applied.did
      cases request with
      | inspectGrant token => cases did with | inspected usable quiet => rfl
      | authorize identities request => exact absurd rfl write
      | reserve token operationId bytes => exact absurd rfl write
      | renew token operationId website => exact absurd rfl write
      | revokeGrant token => exact absurd rfl write
    subst same
    exact ⟨List.Sublist.refl _,rfl,rfl,rfl,List.Sublist.refl _,fun o member _ => member,⟨_,rfl⟩,
      onwards (List.Sublist.refl _) rfl⟩

/-- The state is valid, and its tokens have been drawn. -/
structure Sound (world : World) (options : Options) (p : Process) : Prop where
  valid : p.data.valid options
  drawn : ∀ grant ∈ p.data.grants, Drawn world p.side grant.token
theorem Data.valid.mark {data : Data} (valid : data.valid options) (moment : Int) :
    Data.valid options { data with lastWall := moment } := valid
theorem Sound.answered {p : Process} (sound : Sound world options p) {entry : Entry} {answer : Answer} {next : Data}
    {s' : Side} (done : apply world options entry p.data p.side = (.ok (answer,next),s')) :
    next.valid options ∧ ∀ grant ∈ next.grants, Drawn world s' grant.token := by
  obtain ⟨base,result,s₁,s₂,applied⟩ := apply_ok done
  have frame := applied.frame
  refine ⟨?_,fun later member => ?_⟩
  · have committed := applied.committed
    split_ifs at committed
    · exact committed.1
    · rw [committed]; exact sound.valid
  · rcases frame.moved.grants later member with ⟨grant,there,marked⟩ | ⟨token,more⟩
    · rw [marked.token]
      exact (sound.drawn grant there).later frame.moved.tokens
    · exact ⟨p.side.tokens,more,token.symm⟩
theorem Sound.step {p : Process} (sound : Sound world options p) (step : Step) :
    Sound world options (p.step world options step) := by
  rcases step_cases p step with ⟨log,⟨here,data⟩,tokens,_⟩ | ⟨entry,answer,next,s',done,same⟩
  · refine ⟨?_,fun grant member => ?_⟩
    · rw [data]; exact sound.valid.mark here
    · rw [data] at member
      exact (sound.drawn grant member).later tokens
  · rw [same]
    obtain ⟨valid,drawn⟩ := sound.answered done
    exact ⟨valid,drawn⟩
theorem step_tokens (p : Process) (step : Step) : p.side.tokens ≤ (p.step world options step).side.tokens := by
  rcases step_cases p step with rests | ⟨entry,answer,next,s',done,same⟩
  · exact rests.tokens
  · rw [same]
    obtain ⟨base,result,s₁,s₂,applied⟩ := apply_ok done
    exact applied.frame.moved.tokens
theorem run_tokens (steps : List Step) : ∀ (p : Process), p.side.tokens ≤ (p.run world options steps).side.tokens := by
  induction steps with
  | nil => exact fun p => Nat.le_refl _
  | cons step rest ih => exact fun p => Nat.le_trans (step_tokens p step) (ih _)
theorem distinct_run_invariant {I : Process → Prop} (kept : ∀ p step, Distinct world (p.step world options step).side →
    I p → I (p.step world options step)) (steps : List Step) :
    ∀ {p}, Distinct world (p.run world options steps).side → I p → I (p.run world options steps) := by
  induction steps with
  | nil => exact fun _ start => start
  | cons step rest ih =>
    intro p distinct start
    refine ih distinct (kept p step (distinct.mono fun n low => ?_) start)
    exact Nat.lt_of_lt_of_le low (run_tokens rest _)
theorem fresh_sound (secret : String) (moment : Int) (side : Side) :
    Sound world options (fresh secret moment side) := by
  refine ⟨?_,by simp [fresh,emptyData]⟩
  simp [fresh,emptyData,Data.valid]

end
end RelaySwarm.Ledger
