import RelaySwarm.LedgerValidity

/-!
What a caller is told: a valid ledger refuses a request for one of its own reasons, with
the state as it was, or is valid after it (`refused_or_valid`). An account that has counted
to the largest safe integer is the exception (`revision_outgrown`).
-/
namespace RelaySwarm.Ledger
open Effect Script

section
variable {world : World} {options : Options} {data : Data} {s s' : Side}

/-! ### What an operation leaves -/

theorem authorize_resolving {identities : List Verified} {request : Authorisation} {after : Data}
    {response : GrantResponse}
    (resolving : Resolving data)
    (done : authorize world options identities request data s = (.ok (response,after),s')) :
    Resolving after ∧ after.secret = data.secret := by
  simp only [authorize,bind_ok,pure_ok] at done
  obtain ⟨_,_,checked,⟨records,enrolled⟩,_,enrolling,adjusted,_,adjusting,revoked,_,revoking,⟨value,issued⟩,_,issuing,
    response',_,_,same,_⟩ := done
  cases same
  obtain ⟨pair,_,_⟩ := checkAuthorisation_ok checked
  obtain ⟨enrolment,names,_,_,_⟩ := enrolAll_ok identities enrolling
  have length : records.length = identities.length := by simpa using congrArg List.length names
  have resolving := enrolAll_resolving identities resolving enrolling
  have paired : request.link = true → 2 ≤ records.length := fun linked => by rw [length,pair linked]
  obtain ⟨resolving,own,_⟩ := adjustAccount_resolving resolving paired adjusting
  obtain ⟨resolving,accounts⟩ := revokeEarlier_resolving resolving revoking
  have target : adjusted.1.1 ∈ revoked.accounts.map (·.id) := by
    rw [accounts]
    exact held_known own
  refine ⟨(issued_resolving resolving target (issue_ok issuing)).1,?_⟩
  have adjustedSecret : adjusted.2.secret = enrolled.secret := by
    simp only [adjustAccount,bind_ok,require_ok,pure_ok] at adjusting
    obtain ⟨_,_,⟨_,rfl⟩,_,_,⟨_,rfl⟩,linked,_,linking,rfl,rfl⟩ := adjusting
    obtain ⟨_,_,link⟩ := linkRecords_ok paired linking
    generalize linkedTo enrolled records request.link = chosen at link
    have kept : linked.2.secret = enrolled.secret := by cases link <;> rfl
    unfold applySettings
    split <;> exact kept
  have revokedSecret : revoked.secret = adjusted.2.secret := by
    obtain ⟨_,rfl,_⟩ := revokeEarlier_ok revoking
    split <;> rfl
  rw [(issue_ok issuing).issued]
  exact revokedSecret.trans (adjustedSecret.trans enrolment.secret)
theorem operation_resolving {request : Request} {after : Data} {answer : Answer} (resolving : Resolving data)
    (done : request.operation world options data s = (.ok (answer,after),s')) : Resolving after ∧
      after.secret = data.secret := by
  have did := operation_ok done
  cases did with
  | authorised _ _ =>
    simp only [Request.operation,bind_ok,pure_ok] at done
    obtain ⟨⟨response,after'⟩,_,answered,same,_⟩ := done
    cases same
    exact authorize_resolving resolving answered
  | inspected _ _ => exact ⟨resolving,rfl⟩
  | duplicate _ _ _ _ _ => exact ⟨resolving,rfl⟩
  | decided usable _ _ _ _ => exact ⟨recorded_resolving resolving (canonical_iff.mp usable.account).balance _,rfl⟩
  | repeated _ _ _ _ _ _ => exact ⟨resolving,rfl⟩
  | renewed usable _ issued _ =>
    have target := held_known (canonical_iff.mp usable.account).balance
    refine ⟨renewed_resolving (issued_resolving resolving target issued).1 _ _,?_⟩
    rw [issued.issued]
  | revoked _ _ _ => exact ⟨revokedWhere_resolving resolving _ _,rfl⟩
theorem liveGrants_ids (grants : List Grant) : ∀ {s s' : Side} {kept : List Grant},
    liveGrants world grants s = (.ok kept,s') → s'.ids = s.ids := by
  induction grants with
  | nil =>
    intro s s' kept done
    simp only [liveGrants,pure_ok] at done
    exact congrArg Side.ids done.2.symm
  | cons grant rest ih =>
    intro s s' kept done
    simp only [liveGrants,bind_ok,time_ok,pure_ok] at done
    obtain ⟨_,_,⟨_,_,rfl⟩,_,_,later,_,rfl⟩ := done
    have same := ih later
    exact same
theorem prune_ids {pruned : Data} (done : prune world data s = (.ok pruned,s')) : s'.ids = s.ids := by
  simp only [prune,bind_ok,pure_ok] at done
  obtain ⟨_,s₁,live,_,s₂,forgot,_,rfl⟩ := done
  simp only [keepExpiries,Prod.mk.injEq] at forgot
  rw [← forgot.2]
  have same := liveGrants_ids _ live
  exact same

/-! ### Replies -/

/-- An account has counted so far that the request may step past the largest safe integer. -/
def Outgrows (request : Request) (data : Data) : Prop :=
  ∃ account ∈ data.accounts, ∃ b, account.holding = .balance b ∧
    (maxSafe < b.revision + request.moreRevisions ∨ maxSafe < b.generation + request.moreGenerations)
theorem more_rows {request : Request} (rows : Rows 0 0 data) (within : ¬ Outgrows request data) :
    Rows request.moreRevisions request.moreGenerations data := by
  refine ⟨rows.accountIds,rows.identityIds,rows.tokens,rows.pairs,?_,rows.identities,rows.grants,rows.operations⟩
  intro account member
  obtain ⟨named,formed⟩ := rows.accounts account member
  refine ⟨named,?_⟩
  cases holding : account.holding with
  | aliasTo next =>
    rw [holding] at formed
    exact formed
  | balance b =>
    rw [holding] at formed
    obtain ⟨limit,spent,revision,generation⟩ := formed
    refine ⟨limit,spent,⟨revision.1,?_⟩,⟨generation.1,?_⟩⟩
    · by_contra exceeds
      exact within ⟨account,member,b,holding,.inl (not_le.mp exceeds)⟩
    · by_contra exceeds
      exact within ⟨account,member,b,holding,.inr (not_le.mp exceeds)⟩
theorem commit_as {reasons : Refusal → Prop} {request : Request} {working : Data} {done : Answer × Data}
    (clock : reasons clockUnavailable) (safe : ∀ k here, world.now k = some here → isSafeInteger here = true)
    (wall : 0 ≤ s.highestWall)
    (secret : hex done.2.secret 64 = true) (fits : done.2.valid options ∨ reasons stateInvalid) :
    RefusedAs reasons (commit world options request working done) s := by
  unfold commit
  split
  · refine bind_as (time_as clock) fun here s₁ read => ?_
    obtain ⟨reading,later,rfl⟩ := time_ok.mp read
    refine bind_as ?_ fun _ _ _ => pure_as _
    refine bind_as (refuseIf_as fun lost => absurd ⟨secret,safe _ _ reading,wall.trans later⟩ lost) fun _ s₂ checked =>
      ?_
    obtain ⟨_,rfl⟩ := refuseIf_ok.mp checked
    refine bind_as (time_as clock) fun at₂ _ again => refuseIf_as fun lost => ?_
    obtain ⟨_,later',_⟩ := time_ok.mp again
    rcases lost with early | invalid
    · exact absurd early (not_lt_of_ge later')
    · rcases fits with valid | allowed
      · exact absurd valid invalid
      · exact allowed
  · exact pure_as _
theorem candidate_ok {request : Request} {working base : Data} {moment : Int} (sound : working.sound options)
    (drawn : FreshDraws world working s)
    (found : candidate world request working { s with walls := s.walls + 1, highestWall := moment } = (.ok base,s')) :
    Resolving base ∧ Rows 0 0 base ∧ Roomy options base ∧ base.accounts = working.accounts ∧
      base.secret = working.secret ∧
    FreshDraws world base s' ∧ moment ≤ s'.highestWall := by
  have resolving := valid_resolving sound.2
  have rows := valid_rows sound.2
  obtain ⟨accounts,identities,grants,operations⟩ := sound.2.1
  unfold candidate at found
  split at found
  · obtain ⟨pruned,tokens,_,later,_⟩ := prune_ok found
    have ids := prune_ids found
    refine ⟨pruned_resolving resolving pruned,pruned_rows rows pruned,⟨?_,?_,?_,?_⟩,pruned.accounts,pruned.secret,
      ⟨⟨?_,?_⟩,?_,?_⟩,later⟩
    · rw [pruned.accounts]
      exact accounts
    · rw [pruned.identities]
      exact identities
    · exact le_trans pruned.grants.length_le grants
    · rw [pruned.operations]
      exact le_trans (List.length_filter_le _ _) operations
    · rw [ids,pruned.accounts]
      exact drawn.ids.fresh
    · rw [ids]
      exact drawn.ids.apart
    · unfold NewToken
      rw [tokens]
      exact ⟨drawn.token.1,fun member => drawn.token.2 ((pruned.grants.map _).subset member)⟩
    · rw [pruned.secret]
      exact drawn.digest
  · obtain ⟨rfl,rfl⟩ := pure_ok.mp found
    exact ⟨resolving,rows,⟨accounts,identities,grants,operations⟩,rfl,rfl,
      ⟨⟨drawn.ids.fresh,drawn.ids.apart⟩,drawn.token,drawn.digest⟩,le_rfl⟩
theorem apply_as {entry : Entry} {working : Data} (accepted : options.accepted) (sound : working.sound options)
    (safe : ∀ k here, world.now k = some here → isSafeInteger here = true) (wall : 0 ≤ s.highestWall)
    (drawn : FreshDraws world working s) :
    RefusedAs (fun refusal => refusal ∈ commonRefusals ++ entry.request.refusals ∨
      (refusal = stateInvalid ∧ Outgrows entry.request working)) (apply world options entry working) s := by
  refine bind_as (refuseIf_as fun _ => .inl (by simp [commonRefusals])) fun _ _ checked => ?_
  obtain ⟨_,rfl⟩ := refuseIf_ok.mp checked
  refine bind_as (time_as (.inl (by simp [commonRefusals]))) fun here s₁ read => ?_
  obtain ⟨reading,later,rfl⟩ := time_ok.mp read
  refine bind_as (refuseIf_as fun _ => .inl (by simp [commonRefusals,clockUnavailable])) fun _ _ checked => ?_
  obtain ⟨_,rfl⟩ := refuseIf_ok.mp checked
  refine bind_as ?_ fun base s₂ found => ?_
  · unfold candidate
    split
    · exact prune_as (.inl (by simp [commonRefusals]))
    · exact pure_as _
  obtain ⟨resolving,rows,roomy,accounts,secret,drawn,later'⟩ := candidate_ok sound drawn found
  refine bind_as (operation_as entry.request (fun refusal member => .inl member) resolving) fun done s₃ operated => ?_
  refine bind_as (refuseIf_as fun _ => .inl (by simp [commonRefusals])) fun _ _ checked => ?_
  obtain ⟨_,rfl⟩ := refuseIf_ok.mp checked
  have wall' : 0 ≤ s₃.highestWall := by
    have kept : Kept world (entry.request.operation world options base) := operation_kept entry.request base
    have higher := (kept s₂).wall
    rw [operated] at higher
    exact (wall.trans later).trans (later'.trans higher)
  obtain ⟨after,same⟩ := operation_resolving resolving operated
  refine commit_as (.inl (by simp [commonRefusals])) safe wall' (by rw [same,secret]; exact sound.1.1) ?_
  by_cases outgrown : Outgrows entry.request working
  · exact .inr (.inr ⟨rfl,outgrown⟩)
  · have within : ¬ Outgrows entry.request base := by
      unfold Outgrows at outgrown ⊢
      rwa [accounts]
    refine .inl (rows_valid (operation_roomy roomy operated) after ?_)
    exact operation_rows accepted ((wall.trans later).trans later') drawn resolving (more_rows rows within) operated
/-- A valid ledger refuses a request for one of its own reasons and stays as it was, or it
    is valid afterwards. The exception is an account that has counted so many revisions or
    generations that the next are not safe integers: the state that would be left is
    invalid, so it is refused. -/
theorem refused_or_valid (world : World) (options : Options) (mutationCapacity : Nat) (working : Data) (s : Side)
    (request : Request) (aborted : Bool × Bool) (accepted : options.accepted) (sound : working.sound options)
    (safe : ∀ k here, world.now k = some here → isSafeInteger here = true) (wall : 0 ≤ s.highestWall)
    (drawn : FreshDraws world working s) :
    (∀ refusal, (DurableQueue.one (queue world options mutationCapacity) working s (request,aborted)).1 =
      .error refusal →
      (refusal ∈ commonRefusals ++ request.refusals ∨ (refusal = stateInvalid ∧ Outgrows request working)) ∧
      (DurableQueue.one (queue world options mutationCapacity) working s (request,aborted)).2.1 = working) ∧
    ∀ answer, (DurableQueue.one (queue world options mutationCapacity) working s (request,aborted)).1 = .ok answer →
      (DurableQueue.one (queue world options mutationCapacity) working s (request,aborted)).2.1.sound options := by
  have reasons : RefusedAs _ (apply world options ⟨request,aborted.1,aborted.2⟩ working) s :=
    apply_as accepted sound safe wall drawn
  refine ⟨fun refusal refused => ?_,fun _ _ => one_sound sound⟩
  unfold DurableQueue.one at refused ⊢
  cases applied : (queue world options mutationCapacity).apply request aborted working s with
  | mk outcome s' =>
    rw [applied] at refused
    cases outcome with
    | ok done => cases refused
    | error e =>
      cases refused
      exact ⟨reasons refusal s' applied,rfl⟩

end

/-! ### An account that has counted far -/

def countingWorld : World := { patientWorld with accountId := numbered 32 }
/-- One account of one identity, at this revision. -/
def counted (revision : Int) : Data where
  secret := digits 64 0
  lastWall := 1000
  accounts := [⟨digits 32 0,.balance ⟨1000,0,revision,1⟩⟩]
  identities := [⟨digits 64 0,"nostr",digits 32 0⟩]
  grants := []
  operations := []
def countingSide : Side := ⟨0,fun _ => none,0,0,0,0⟩
theorem counting_draws (revision : Int) : FreshDraws countingWorld (counted revision) countingSide := by
  refine ⟨⟨?_,?_⟩,⟨by decide +kernel,fun member => nomatch member⟩,fun value => ?_⟩
  · intro k _ high
    refine ⟨numbered_hex (by omega) k,?_⟩
    have other : ∀ k < 2, numbered 32 k ≠ digits 32 0 := by decide +kernel
    exact fun member => other k high (List.mem_singleton.mp member)
  · intro i j _ less high same
    have below : j < 2 := high
    have equal : i = j := numbered_injective ⟨by omega,by omega⟩ (show numbered 32 i = numbered 32 j from same)
    omega
  · show hex (digits 64 0) 64 = true
    decide +kernel
/-- A valid state, and a request that comes at the right time, refused as an invalid state. -/
theorem revision_outgrown : (counted maxSafe).sound smallOptions ∧ smallOptions.accepted ∧
    FreshDraws countingWorld (counted maxSafe) countingSide ∧
    (DurableQueue.one (queue countingWorld smallOptions 1) (counted maxSafe) countingSide
      (asked [viewer] (some ⟨1000,false⟩),(false,false))).1 = .error stateInvalid := by
  refine ⟨?_,?_,counting_draws maxSafe,?_⟩
  · decide +kernel
  · decide +kernel
  · rfl
/-- At its first revision the account is adjusted. -/
theorem refused_or_valid_counted :
    (∀ refusal, (DurableQueue.one (queue countingWorld smallOptions 1) (counted 1) countingSide
        (asked [viewer] (some ⟨1000,false⟩),(false,false))).1 = .error refusal →
      (refusal ∈ commonRefusals ++ (asked [viewer] (some ⟨1000,false⟩)).refusals ∨
        (refusal = stateInvalid ∧ Outgrows (asked [viewer] (some ⟨1000,false⟩)) (counted 1))) ∧
      (DurableQueue.one (queue countingWorld smallOptions 1) (counted 1) countingSide
        (asked [viewer] (some ⟨1000,false⟩),(false,false))).2.1 = counted 1) ∧
    ∀ answer, (DurableQueue.one (queue countingWorld smallOptions 1) (counted 1) countingSide
        (asked [viewer] (some ⟨1000,false⟩),(false,false))).1 = .ok answer →
      (DurableQueue.one (queue countingWorld smallOptions 1) (counted 1) countingSide
        (asked [viewer] (some ⟨1000,false⟩),(false,false))).2.1.sound smallOptions :=
  refused_or_valid countingWorld smallOptions 1 (counted 1) countingSide _ (false,false) (by decide +kernel)
    (by decide +kernel)
    (fun _ _ read => by cases read; rfl) (by decide) (counting_draws 1)

end RelaySwarm.Ledger
