import RelaySwarm.CommitmentScript
import RelaySwarm.Restrictions

/-!
Revocations act as a set and only restrict, in both implementations. The loop over them
goes on or rejects at each entry by itself, and only an entry that the author of the
stream signed for the delegation and the swarm can reject.
-/
namespace RelaySwarm.Revocations
open JsonText Publisher Signatures Commitment Restrictions

section Answers
variable {α β δ : Type} {limit : Nat} {counts : α → Prop}

theorem acts_bind (x : Option δ) {f : δ → List α → Option β} (each : ∀ a, x = some a → ActsAsSet limit counts (f a)) :
    ActsAsSet limit counts (fun all => x >>= fun a => f a all) := by
  cases x with
  | none => exact unrestricted none
  | some a => exact each a rfl
theorem acts_loop {c : Bool} {loop : List α → Option Unit} (x : Option δ) (accepts : δ → Bool) (f : δ → Option β)
    (single : Single loop) (counted : ∀ e, loop [e] = none → counts e) :
    ActsAsSet limit counts (fun all =>
      guard (c && decide (all.length ≤ limit)) >>= fun _ => x >>= fun a => guard (accepts a) >>= fun _ =>
        loop all >>= fun _ => f a) := by
  have form :
      (fun all => guard (c && decide (all.length ≤ limit)) >>= fun _ => x >>= fun a => guard (accepts a) >>= fun _ =>
        loop all >>= fun _ => f a) =
      restricted limit (fun e => (loop [e]).isNone) (guard c >>= fun _ => x >>= fun a =>
        guard (accepts a) >>= fun _ => f a) := by
    funext all
    rw [restricted,single.any]
    by_cases few : all.length ≤ limit
    · rw [if_neg (Nat.not_lt.mpr few)]
      by_cases rejected : all.any (fun e => (loop [e]).isNone) = true
      · rw [if_pos rejected,if_pos rejected]
        cases c <;> cases x <;> simp [few,guard,failure]
      · rw [if_neg rejected,if_neg rejected]
        cases c <;> cases x <;> simp [few,guard,failure]
    · rw [if_pos (Nat.not_le.mp few)]
      simp [few,guard,failure]
  rw [form]
  exact restricted_acts _ (fun e rejects => counted e (by simpa using rejects))

end Answers

/-! ### Time in milliseconds -/

section Crates
variable (crates : Crates)

/-- The author of the stream signed this revocation, of the delegation in the swarm. -/
def SignedFor (stream : Value) (swarmId : Text) (event revocation : Value) : Prop :=
  kindIs revocation kindCommitmentRevocation = true ∧ fieldEq revocation "pubkey" (index stream "pubkey") = true ∧
    crates.verifyEvent revocation = true ∧ taggedFor revocation event swarmId = true

variable {crates} {event stream revocation : Value} {swarmId : Text} {createdAt now : Int}

theorem unrevoked_single : Single (unrevoked crates event stream swarmId createdAt now) := by
  refine ⟨rfl,fun revocation rest => ?_⟩
  simp only [unrevoked]
  cases revocationCreatedAt revocation stream with
  | none => exact .inr ⟨rfl,rfl⟩
  | some created =>
    dsimp only
    split
    · exact .inr ⟨rfl,rfl⟩
    · cases textOf (index revocation "content") with
      | none => exact .inl ⟨rfl,rfl⟩
      | some content =>
        dsimp only
        cases crates.fromStr content with
        | none => exact .inl ⟨rfl,rfl⟩
        | some revoked =>
          cases revoked with
          | null => exact .inl ⟨rfl,rfl⟩
          | object fields =>
            dsimp only
            split
            · exact .inl ⟨rfl,rfl⟩
            · exact .inr ⟨rfl,rfl⟩
          | _ => exact .inr ⟨rfl,rfl⟩
theorem unrevoked_signed (rejects : unrevoked crates event stream swarmId createdAt now [revocation] = none) :
    SignedFor crates stream swarmId event revocation := by
  simp only [unrevoked] at rejects
  cases created : revocationCreatedAt revocation stream with
  | none =>
    rw [created] at rejects
    cases rejects
  | some moment =>
    rw [created] at rejects
    dsimp only at rejects
    split at rejects
    · cases rejects
    · rename_i envelope
      simp only [Bool.or_eq_true,decide_eq_true_eq,Bool.not_eq_true',not_or,Bool.not_eq_false] at envelope
      obtain ⟨⟨_,signed⟩,tagged⟩ := envelope
      unfold revocationCreatedAt at created
      split at created
      · cases created
      · rename_i shape
        simp only [Bool.or_eq_true,Bool.not_eq_true',not_or,Bool.not_eq_false] at shape
        exact ⟨shape.1.2,shape.2,signed,tagged⟩

theorem delegation_acts (crates : Crates) (event : Option Value) (trust : Trust) (atMs : Int) :
    ActsAsSet 256 (SignedFor crates trust.streamEvent trust.swarmId (event.getD .null))
      (fun revocations => verifyCommitmentDelegation crates event
        { trust with delegationRevocations := revocations } atMs) := by
  unfold verifyCommitmentDelegation
  dsimp +instances only
  refine acts_bind _ fun event' held => acts_bind _ fun _ _ => acts_bind _ fun createdAt _ => ?_
  have named : event.getD .null = event' := by rw [(Option.filter_eq_some_iff.mp held).1]; rfl
  rw [named]
  exact acts_loop _ _ _ unrevoked_single (fun e => unrevoked_signed)

theorem commitment_acts (crates : Crates) (event : Value) (trust : Trust) (key : Text) (context : FragmentContext)
    (maxSegment : Value) (delegation : Option Value) (atMs : Int) :
    ActsAsSet 256 (SignedFor crates trust.streamEvent trust.swarmId (delegation.getD .null)) (fun revocations =>
      verifySegmentCommitment crates event { trust with delegationRevocations := revocations } key context maxSegment
        delegation atMs) := by
  unfold verifySegmentCommitment
  dsimp +instances only
  refine acts_bind _ fun limit _ => acts_bind _ fun _ _ => acts_bind _ fun createdAt _ => acts_bind _ fun _ _ =>
    acts_bind _ fun value _ =>
    acts_bind _ fun _ _ => acts_bind _ fun _ _ => acts_bind _ fun _ _ => ?_
  by_cases own : fieldEq event "pubkey" (index trust.streamEvent "pubkey") = true
  · simp only [own,if_true]
    exact unrestricted _
  · simp only [own,if_false,Bool.false_eq_true]
    exact (delegation_acts crates delegation trust atMs).bind _

end Crates
/-! ### Time as any number -/

section Library
open CommitmentScript
variable (library : Library)

/-- The same of a revocation in the browser. -/
def ValidFor (stream : Value) (swarmId : Text) (event revocation : Value) : Prop :=
  same (property revocation (lit "kind")) (some (.number kindCommitmentRevocation)) = true ∧
    same (property revocation (lit "pubkey")) (property stream (lit "pubkey")) = true ∧
      validSignature library revocation = true ∧
    (tag revocation "e").any (fun e => same (some e) (property event (lit "id"))) = true ∧
    (tag revocation "x").any (fun x => same (some x) (some (.string swarmId))) = true

variable {library} {event stream revocation : Value} {swarmId : Text} {createdAt : Int} {seconds : Seconds}

theorem tag_there (shaped : library.Shaped) (valid : validSignature library event = true) (name : String) :
    (tag event name).isSome := by
  have keyed := (Bool.and_eq_true_iff.mp valid).1
  unfold keyOf at keyed
  split at keyed
  · cases keyed
  · rename_i hash hashed
    rw [tag,Option.isSome_map]
    exact shaped _ hash hashed

theorem script_single : Single (CommitmentScript.unrevoked library event stream swarmId createdAt seconds) := by
  refine ⟨rfl,fun revocation rest => ?_⟩
  simp only [CommitmentScript.unrevoked]
  cases (property revocation (lit "created_at")).bind safeInteger with
  | none => exact .inr ⟨rfl,rfl⟩
  | some created =>
    dsimp only
    split
    · exact .inr ⟨rfl,rfl⟩
    · cases tag revocation "e" with
      | none => exact .inl ⟨rfl,rfl⟩
      | some e =>
        cases tag revocation "x" with
        | none => exact .inl ⟨rfl,rfl⟩
        | some x =>
          dsimp only
          split
          · exact .inr ⟨rfl,rfl⟩
          · cases ((property revocation (lit "content")).bind textOf).bind parse with
            | none => exact .inl ⟨rfl,rfl⟩
            | some revoked =>
              cases revoked with
              | null => exact .inl ⟨rfl,rfl⟩
              | _ =>
                dsimp only
                split
                · exact .inl ⟨rfl,rfl⟩
                · exact .inr ⟨rfl,rfl⟩
theorem script_valid (shaped : library.Shaped)
    (rejects : CommitmentScript.unrevoked library event stream swarmId createdAt seconds [revocation] = none) :
    ValidFor library stream swarmId event revocation := by
  simp only [CommitmentScript.unrevoked] at rejects
  split at rejects
  · cases rejects
  · split at rejects
    · cases rejects
    · rename_i envelope
      simp only [Bool.or_eq_true,Bool.not_eq_true',not_or,Bool.not_eq_false] at envelope
      obtain ⟨⟨⟨⟨⟨_,kind⟩,author⟩,_⟩,_⟩,valid⟩ := envelope
      obtain ⟨e,e_there⟩ := Option.isSome_iff_exists.mp (tag_there shaped valid "e")
      obtain ⟨x,x_there⟩ := Option.isSome_iff_exists.mp (tag_there shaped valid "x")
      rw [e_there,x_there] at rejects
      dsimp only at rejects
      split at rejects
      · cases rejects
      · rename_i tags
        simp only [Bool.or_eq_true,Bool.not_eq_true',not_or,Bool.not_eq_false] at tags
        exact ⟨kind,author,valid,by rw [e_there]; exact tags.1,by rw [x_there]; exact tags.2⟩

theorem script_delegation_acts (shaped : library.Shaped) (event : Option Value) (trust : Trust) (atMs : Instant) :
    ActsAsSet 256 (ValidFor library trust.streamEvent trust.swarmId (event.getD .null)) (fun revocations =>
      CommitmentScript.verifyCommitmentDelegation library event
        { trust with delegationRevocations := revocations } atMs) := by
  unfold CommitmentScript.verifyCommitmentDelegation
  dsimp +instances only
  refine acts_bind _ fun _ _ => acts_bind _ fun event' held => acts_bind _ fun _ _ => acts_bind _ fun _ _ =>
    acts_bind _ fun _ _ =>
    acts_bind _ fun _ _ => acts_bind _ fun createdAt _ => ?_
  have named : event.getD .null = event' := by rw [(Option.filter_eq_some_iff.mp held).1]; rfl
  rw [named]
  exact acts_loop _ _ _ script_single (fun e => script_valid shaped)

theorem script_commitment_acts (shaped : library.Shaped) (event : Value) (trust : Trust) (key : Text)
    (context : Context) (maxSegment : Value) (delegation : Option Value) (atMs : Instant) :
    ActsAsSet 256 (ValidFor library trust.streamEvent trust.swarmId (delegation.getD .null)) (fun revocations =>
      CommitmentScript.verifySegmentCommitment library event { trust with delegationRevocations := revocations } key
        context maxSegment
        delegation atMs) := by
  unfold CommitmentScript.verifySegmentCommitment
  dsimp +instances only
  refine acts_bind _ fun limit _ => acts_bind _ fun _ _ => acts_bind _ fun createdAt _ => acts_bind _ fun _ _ =>
    acts_bind _ fun _ _ =>
    acts_bind _ fun _ _ => acts_bind _ fun _ _ => acts_bind _ fun value _ => acts_bind _ fun _ _ =>
      acts_bind _ fun _ _ =>
    acts_bind _ fun _ _ => ?_
  by_cases own : same (property event (lit "pubkey")) (property trust.streamEvent (lit "pubkey")) = true
  · simp only [own,if_true]
    exact unrestricted _
  · simp only [own,if_false,Bool.false_eq_true]
    exact (script_delegation_acts shaped delegation trust atMs).bind _

end Library

/-- For every delegation and every commitment, under all trust and at all times, the
    revocations count as the set of those the author of the stream signed for the
    delegation and the swarm, and more of them never gives an answer that fewer did not;
    in both implementations. -/
theorem revocations_restrict (crates : Crates) (library : CommitmentScript.Library) (shaped : library.Shaped)
    (trust : Trust) :
    (∀ event atMs, ActsAsSet 256 (SignedFor crates trust.streamEvent trust.swarmId (event.getD .null))
      (fun revocations => verifyCommitmentDelegation crates event
        { trust with delegationRevocations := revocations } atMs)) ∧
    (∀ event key context maxSegment delegation atMs,
      ActsAsSet 256 (SignedFor crates trust.streamEvent trust.swarmId (delegation.getD .null)) (fun revocations =>
        verifySegmentCommitment crates event { trust with delegationRevocations := revocations } key context maxSegment
          delegation atMs)) ∧
    (∀ event atMs, ActsAsSet 256 (ValidFor library trust.streamEvent trust.swarmId (event.getD .null))
      (fun revocations =>
      CommitmentScript.verifyCommitmentDelegation library event
        { trust with delegationRevocations := revocations } atMs)) ∧
    ∀ event key context maxSegment delegation atMs,
      ActsAsSet 256 (ValidFor library trust.streamEvent trust.swarmId (delegation.getD .null)) (fun revocations =>
        CommitmentScript.verifySegmentCommitment library event { trust with delegationRevocations := revocations } key
          context maxSegment
          delegation atMs) :=
  ⟨fun event atMs => delegation_acts crates event trust atMs,
    fun event key context maxSegment delegation atMs =>
      commitment_acts crates event trust key context maxSegment delegation atMs,
    fun event atMs => script_delegation_acts shaped event trust atMs,
    fun event key context maxSegment delegation atMs =>
      script_commitment_acts shaped event trust key context maxSegment delegation atMs⟩

/-! ### A delegation that was revoked -/

def pieces (parts : List String) : Text := parts.flatMap lit
def author : Text := pieces ["de50d9fdc4996b6d314c926ef80ac34e","fbd40106b39584eb18d42d98b002ad33"]
def streamId : Text := pieces ["816dd635156575fe377bb26f1ac475b3","705e42f0396d7b2b5f4c89be06078ab6"]
def delegationId : Text := pieces ["bfa707548c92d89aa1a72ade047129f7","8fcd2b287c72e8f4e08881b5d38ba816"]
def streamEvent : Value := Event.value {
  kind := 30311
  createdAt := 1791996400
  tags := [[lit "d",lit "vectorstream"],[lit "relayswarm",lit "redistribute",lit "1"]]
  content := lit "RelaySwarm experimental publisher"
  pubkey := author
  id := streamId
  sig :=
    pieces
    ["b80302f8fad2c19edfbbbc6fcc4b89a1","9af22a21b121558d80e7cfb645ffbe2a","1a01bb2f31088441970e64c9aa18068f","cbffc6990cc39cec2417aa691827e825"] }
def delegation : Value := Event.value {
  kind := 24173
  createdAt := 1791999990
  tags := [[lit "x",lit "vector-swarm"],[lit "e",streamId]]
  content :=
    pieces ["\x7b\"domain\":\"relayswarm-commitment","-delegation-v1\",\"v\":1,","\"streamEventId\":\""] ++ streamId ++
    pieces
      ["\",\"swarmId\":\"vector-swarm\",","\"delegatePubkey\":\"","d9fad1c08056b7bd315535545babc9ab","5f27bab54af4eea5711884182988df13",
      "\",\"notBefore\":1791999990,","\"expiresAt\":1792000590,","\"renditions\":[\"0\",","\"/media/high/index.m3u8\"],",
      "\"mediaTypes\":[\"main\"],","\"allowParts\":false,","\"maxSegmentBytes\":1048576\x7d"]
  pubkey := author
  id := delegationId
  sig :=
    pieces
    ["6438ca667e1fd85338269f3d43005628","32ce39601b4ae0a76585962f31835e70","435352a7c93ed86a5692a32f05520f86","e67e0d8cb04079033a91c9f7fc6f3f81"] }
def revocation : Value := Event.value {
  kind := 24174
  createdAt := 1791999995
  tags := [[lit "x",lit "vector-swarm"],[lit "e",delegationId]]
  content :=
    pieces ["\x7b\"domain\":\"relayswarm-commitment","-revocation-v1\",\"v\":1,","\"streamEventId\":\""] ++ streamId ++
    pieces ["\",\"swarmId\":\"vector-swarm\",","\"delegationId\":\""] ++ delegationId ++ lit "\"\x7d"
  pubkey := author
  id := pieces ["31a986a9d89d855cd0fdedbc8b099c92","c23e85d1754fdbfbbde46045e1bcafa9"]
  sig :=
    pieces
    ["d1ed8180e90e9092ad03833a9cfdb5f0","a61924f0b001589b20be5d3e9f8feb9d","963ddc449507447bf46f37e52557068e","599299801026bcf540c556dc800774ab"] }
/-- The library on those events, which all are validly signed. -/
def signedLibrary : CommitmentScript.Library where
  nostr := {
    text := (·.bind textOf)
    getEventHash := fun copy => if (CommitmentScript.rowsOf copy.tags).isSome then copy.id.bind textOf else none
    verifyEvent := fun _ => true }
  url _ _ := none
theorem signedLibrary_shaped : signedLibrary.Shaped := by
  intro copy hash hashed
  have hashed : (if (CommitmentScript.rowsOf copy.tags).isSome then copy.id.bind textOf else none) = some hash := hashed
  split at hashed
  · assumption
  · cases hashed
def trusted (revocations : List Value) : Trust := ⟨streamEvent,lit "vector-swarm",[],revocations⟩
def verdict (revocations : List Value) : Option Value :=
  CommitmentScript.verifyCommitmentDelegation signedLibrary (some delegation) (trusted revocations)
    (.finite 1792000000000)
theorem revocations_restrict_twice :
    verdict [.null,revocation,revocation] = verdict [revocation] ∧ (verdict [revocation]).isNone ∧
      (verdict []).isSome := by
  refine ⟨?_,by decide +kernel⟩
  have acts := (revocations_restrict ⟨fun _ => ⟨List.replicate 32 0,rfl⟩,fun _ => true,parse⟩ signedLibrary
      signedLibrary_shaped (trusted [])).2.2.1
    (some delegation) (.finite 1792000000000)
  refine acts.same [.null,revocation,revocation] [revocation] (by decide) (by decide) fun e valid => ?_
  have other : e ≠ .null := by
    rintro rfl
    cases valid.1
  simp [other]

end RelaySwarm.Revocations
