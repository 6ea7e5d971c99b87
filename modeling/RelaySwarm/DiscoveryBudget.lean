import RelaySwarm.Allowance
import RelaySwarm.DiscoveryAttempts

/-!
The replacement of a context is an allowance: `replaced` spends it, `verified` renews it,
and `rearm` arms it again after 20 s. In both implementations every call does to it
what an allowance allows (`use_follows`), so the replacements of one context are spaced.
-/
namespace RelaySwarm.Neighbours
open RelaySwarm.Script RelaySwarm.Allowance

variable {c : Context} {g f : Context → Context} {d' : NeighbourDiscovery} {now : Nat} {s' : Script}
/-- A call that may change the state. What an earlier `choose` returned may be begun at
    any time. -/
inductive Act (χ : Type) where
  | context (now : Nat) (mediaType rendition : String)
  | demand (now : Nat) (mediaType rendition key : String)
  | hint (now : Nat) (pubkey : String) (keys : List String) (ticket : Option String)
  | holderMiss (now : Nat) (context : Option Nat) (pubkey key : String)
  | holderAhead (context : Option Nat) (pubkey : String)
  | forget (pubkey : String)
  | choose (now : Nat) (eligible : Candidate → Bool) (unmet : MediaType → Bool) (room : Bool)
  | begin' (now : Nat) (choice : χ)
  | rearm (now : Nat) (context : Nat) (allStale : Bool)
  | replaced (now : Nat) (attempt : Nat) (victim : Option String)
  | allocated (attempt dial : Nat)
  | abandoned (attempt : Nat)
  | failed (dial : Nat)
  | end'
  | verified (context : Option Nat)
  | clear
/-- The clock as a call reads it. -/
def Act.reading {χ : Type} : Act χ → Option Nat
  | .context now _ _ => some now
  | .demand now _ _ _ => some now
  | .hint now _ _ _ => some now
  | .holderMiss now _ _ _ => some now
  | .choose now _ _ _ => some now
  | .begin' now _ => some now
  | .rearm now _ _ => some now
  | .replaced now _ _ => some now
  | _ => none
def phaseOf (spentAt : Option Nat) : Phase := spentAt.elim .armed .spent

/-! ### By ids -/

namespace NeighbourDiscovery
variable (validTicket : String → Bool)

def act (d : NeighbourDiscovery) : Act Found → NeighbourDiscovery
  | .context now mediaType rendition => (d.context now mediaType rendition).2
  | .demand now mediaType rendition key => (d.demand now mediaType rendition key).2
  | .hint now pubkey keys ticket => d.hint validTicket now pubkey keys ticket
  | .holderMiss now context pubkey key => (d.holderMiss now context pubkey key).2
  | .holderAhead context pubkey => d.holderAhead context pubkey
  | .forget pubkey => d.forget pubkey
  | .choose now eligible unmet room => (d.choose now eligible unmet room).2
  | .begin' now found => (d.begin' now found).2
  | .rearm now context allStale => (d.rearm now context allStale).2
  | .replaced now attempt victim => (d.replaced now attempt victim).2
  | .allocated attempt dial => d.allocated attempt dial
  | .abandoned attempt => d.abandoned attempt
  | .failed dial => d.failed dial
  | .end' => d.end'.2
  | .verified context => (d.verified context).2
  | .clear => d.clear
def acts (d : NeighbourDiscovery) (acts : List (Act Found)) : NeighbourDiscovery := acts.foldl (act validTicket) d
/-- The replacement of the context with an id. -/
def phase (d : NeighbourDiscovery) (id : Nat) : Phase :=
  match d.liveContext id with
  | some context => phaseOf context.spentAt
  | none => if id ≤ d.nextId then .gone else .unborn
/-- What a call does to the replacement of a context: a `replaced` that succeeds for it
    spends it, and a `verified` renews it. -/
def use (d : NeighbourDiscovery) (id : Nat) (act : Act Found) : Use :=
  match act with
  | .replaced now attempt victim =>
    if (d.replaced now attempt victim).1 && d.window.any (·.context = id) then .spends now
    else if (d.act validTicket act).phase id = .gone then .leaves else .rests
  | .rearm now context allStale =>
    if (d.rearm now context allStale).1 && context = id then .rearms now
    else if (d.act validTicket act).phase id = .gone then .leaves else .rests
  | .verified context =>
    if (d.verified context).1 && context = some id then .renews
    else if (d.act validTicket act).phase id = .gone then .leaves else .rests
  | act => if (d.act validTicket act).phase id = .gone then .leaves else .rests

/-- The ids of the contexts were taken, each by one of them; a context is spent while it
    knows since when. -/
structure Tidy (d : NeighbourDiscovery) : Prop where
  alone : ∀ c ∈ d.contexts.values, ∀ c' ∈ d.contexts.values, c.id = c'.id → c = c'
  taken : ∀ c ∈ d.contexts.values, c.id ≤ d.nextId
  marked : ∀ c ∈ d.contexts.values, c.spent = c.spentAt.isSome

variable {d : NeighbourDiscovery}

theorem liveContext_iff (tidy : d.Tidy) {id : Nat} :
    d.liveContext id = some c ↔ c ∈ d.contexts.values ∧ c.id = id := by
  constructor
  · exact fun found => ⟨List.mem_of_find?_eq_some found,by simpa using List.find?_some found⟩
  · rintro ⟨member,rfl⟩
    cases found : d.liveContext c.id with
    | none => exact absurd (List.find?_eq_none.mp found c member) (by simp)
    | some c' =>
      have same : c'.id = c.id := by simpa using List.find?_some found
      rw [tidy.alone c' (List.mem_of_find?_eq_some found) c member same]
theorem liveContext_map (ids : ∀ c, (g c).id = c.id)
    (contexts : d'.contexts = d.contexts.mapValues (fun _ => g))
    (id : Nat) : d'.liveContext id = (d.liveContext id).map g := by
  unfold liveContext
  rw [contexts,IndexMap.values_mapValues,List.find?_map]
  have same : ((fun c : Context => decide (c.id = id)) ∘ g) = fun c => decide (c.id = id) := by
    funext c
    simp only [Function.comp,ids c]
  rw [same]
theorem Tidy.map (tidy : d.Tidy) (ids : ∀ c, (g c).id = c.id)
    (marks : ∀ c, c.spent = c.spentAt.isSome → (g c).spent = (g c).spentAt.isSome)
    (contexts : d'.contexts = d.contexts.mapValues (fun _ => g)) (more : d.nextId ≤ d'.nextId) : d'.Tidy := by
  have values : d'.contexts.values = d.contexts.values.map g := by rw [contexts,IndexMap.values_mapValues]
  refine ⟨?_,?_,?_⟩
  · rw [values]
    intro c member c' member' same
    obtain ⟨b,held,rfl⟩ := List.mem_map.mp member
    obtain ⟨b',held',rfl⟩ := List.mem_map.mp member'
    rw [ids,ids] at same
    rw [tidy.alone b held b' held' same]
  · rw [values]
    intro c member
    obtain ⟨b,held,rfl⟩ := List.mem_map.mp member
    rw [ids]
    exact (tidy.taken b held).trans more
  · rw [values]
    intro c member
    obtain ⟨b,held,rfl⟩ := List.mem_map.mp member
    exact marks b (tidy.marked b held)
theorem Tidy.same (tidy : d.Tidy) (contexts : d'.contexts = d.contexts) (more : d.nextId ≤ d'.nextId) :
    d'.Tidy :=
  ⟨contexts ▸ tidy.alone,fun c member => (tidy.taken c (contexts ▸ member)).trans more,contexts ▸ tidy.marked⟩

/-- What a call does to a context that neither spends nor arms its replacement. -/
def Keeps (d d' : NeighbourDiscovery) : Prop := d'.Tidy ∧
  ∀ id, Follows replacementRearmMs (d.phase id) (if d'.phase id = .gone then .leaves else .rests) (d'.phase id)
theorem stays (phase : Phase) : Follows replacementRearmMs phase (if phase = .gone then .leaves else .rests) phase := by
  split
  · rename_i gone
    rw [gone]
    exact .leaves _
  · exact .rests _
theorem Keeps.of_phase (tidy : d'.Tidy) (same : ∀ id, d'.phase id = d.phase id) : Keeps d d' := by
  refine ⟨tidy,fun id => ?_⟩
  rw [same id]
  exact stays _
theorem Keeps.then {d' d'' : NeighbourDiscovery} (keeps : Keeps d d') (tidy : d''.Tidy)
    (same : ∀ id, d''.phase id = d'.phase id) :
    Keeps d d'' := by
  refine ⟨tidy,fun id => ?_⟩
  rw [same id]
  exact keeps.2 id
theorem map_phase (same : ∀ c, (g c).id = c.id ∧ (g c).spentAt = c.spentAt)
    (contexts : d'.contexts = d.contexts.mapValues (fun _ => g)) (ids : d'.nextId = d.nextId)
    (id : Nat) : d'.phase id = d.phase id := by
  unfold phase
  rw [liveContext_map (fun c => (same c).1) contexts,ids]
  cases d.liveContext id with
  | none => rfl
  | some c => exact congrArg phaseOf (same c).2
theorem Keeps.map (tidy : d.Tidy) (same : ∀ c, (g c).id = c.id ∧ (g c).spentAt = c.spentAt ∧ (g c).spent = c.spent)
    (contexts : d'.contexts = d.contexts.mapValues (fun _ => g)) (ids : d'.nextId = d.nextId) : Keeps d d' := by
  have marks (c : Context) (marked : c.spent = c.spentAt.isSome) : (g c).spent = (g c).spentAt.isSome := by
    rw [(same c).2.1,(same c).2.2,marked]
  exact .of_phase (tidy.map (fun c => (same c).1) marks contexts (le_of_eq ids.symm))
    (map_phase (fun c => ⟨(same c).1,(same c).2.1⟩) contexts ids)
theorem modify_contexts (id : Nat) (f : Context → Context) :
    (d.modifyContext id f).contexts = d.contexts.mapValues (fun _ => fun c => if c.id = id then f c else c) := rfl
theorem modify_tidy (tidy : d.Tidy) (ids : ∀ c, (f c).id = c.id)
    (marks : ∀ c, c.spent = c.spentAt.isSome → (f c).spent = (f c).spentAt.isSome)
    (id : Nat) : (d.modifyContext id f).Tidy := by
  refine tidy.map (fun c => ?_) (fun c marked => ?_) (modify_contexts id f) le_rfl
  · split
    · exact ids c
    · rfl
  · split
    · exact marks c marked
    · exact marked
theorem modify_phase (same : ∀ c, (f c).id = c.id ∧ (f c).spentAt = c.spentAt) (id id' : Nat) :
    (d.modifyContext id f).phase id' = d.phase id' := by
  refine map_phase (fun c => ?_) (modify_contexts id f) rfl id'
  split
  · exact same c
  · exact ⟨rfl,rfl⟩
theorem Keeps.modify (tidy : d.Tidy) (same : ∀ c, (f c).id = c.id ∧ (f c).spentAt = c.spentAt ∧ (f c).spent = c.spent)
    (id : Nat) : Keeps d (d.modifyContext id f) :=
  .of_phase (modify_tidy tidy (fun c => (same c).1) (fun c marked => by rw [(same c).2.1,(same c).2.2,marked]) id)
    (modify_phase (fun c => ⟨(same c).1,(same c).2.1⟩) id)
theorem modify_live (ids : ∀ c, (f c).id = c.id) (id : Nat) (live : d.liveContext id = some c) :
    (d.modifyContext id f).liveContext id = some (f c) := by
  have ids' (c : Context) : (if c.id = id then f c else c).id = c.id := by
    split
    · exact ids c
    · rfl
  have named : c.id = id := by simpa using List.find?_some live
  rw [liveContext_map ids' (modify_contexts id f),live]
  exact congrArg some (if_pos named)
theorem modify_other (ids : ∀ c, (f c).id = c.id) {id id' : Nat} (other : id' ≠ id) :
    (d.modifyContext id f).phase id' = d.phase id' := by
  have ids' (c : Context) : (if c.id = id then f c else c).id = c.id := by
    split
    · exact ids c
    · rfl
  have same : (d.modifyContext id f).liveContext id' = d.liveContext id' := by
    rw [liveContext_map ids' (modify_contexts id f)]
    cases live : d.liveContext id' with
    | none => rfl
    | some c =>
      have named : c.id = id' := by simpa using List.find?_some live
      exact congrArg some (if_neg (by rw [named]; exact other))
  unfold phase
  rw [same]
  rfl
theorem phase_gone {id : Nat} (absent : d.liveContext id = none) (taken : id ≤ d.nextId) : d.phase id = .gone := by
  unfold phase
  rw [absent]
  exact if_pos taken
theorem phase_unborn {id : Nat} (absent : d.liveContext id = none) (free : ¬ id ≤ d.nextId) : d.phase id = .unborn := by
  unfold phase
  rw [absent]
  exact if_neg free
theorem phase_live {id : Nat} (live : d.liveContext id = some c) : d.phase id = phaseOf c.spentAt := by
  unfold phase
  rw [live]
theorem phaseOf_live (spentAt : Option Nat) : phaseOf spentAt ≠ .gone := by
  cases spentAt <;> exact nofun
theorem Keeps.same (tidy : d.Tidy) (contexts : d'.contexts = d.contexts) (more : d.nextId ≤ d'.nextId) :
    Keeps d d' := by
  refine ⟨tidy.same contexts more,fun id => ?_⟩
  have same : d'.liveContext id = d.liveContext id := by
    unfold liveContext
    rw [contexts]
  cases live : d.liveContext id with
  | some c =>
    rw [phase_live live,phase_live (same.trans live),if_neg (phaseOf_live _)]
    exact .rests _
  | none =>
    by_cases taken : id ≤ d'.nextId
    · rw [phase_gone (same.trans live) taken]
      exact .leaves _
    · rw [phase_unborn live (fun early => taken (early.trans more)),phase_unborn (same.trans live) taken]
      exact .rests _
theorem Keeps.newContext (tidy : d.Tidy) (now : Nat) (mediaType : MediaType) (rendition : String) :
    Keeps d { d with
      nextId := d.nextId + 1
      contexts := d.contexts.insert mediaType ⟨d.nextId + 1,mediaType,rendition,[],none,now,false,none,.empty⟩ } := by
  generalize new : (⟨d.nextId + 1,mediaType,rendition,[],none,now,false,none,.empty⟩ : Context) = context
  have id' : context.id = d.nextId + 1 := by rw [← new]
  have member (c : Context) (held : c ∈ (d.contexts.insert mediaType context).values) :
      c = context ∨ c ∈ d.contexts.values := by
    obtain ⟨m,found⟩ := IndexMap.mem_values.mp held
    rw [IndexMap.get?_insert] at found
    split at found
    · exact .inl (Option.some.inj found).symm
    · exact .inr (IndexMap.mem_values.mpr ⟨m,found⟩)
  have apart (c : Context) (held : c ∈ d.contexts.values) : c.id ≠ context.id := by
    have taken := tidy.taken c held
    omega
  generalize after : ({ d with
    nextId := d.nextId + 1, contexts := d.contexts.insert mediaType context } : NeighbourDiscovery) = d'
  have values : d'.contexts.values = (d.contexts.insert mediaType context).values := by rw [← after]
  have ids : d'.nextId = d.nextId + 1 := by rw [← after]
  have tidy' : d'.Tidy := by
    refine ⟨?_,?_,?_⟩
    · rw [values]
      intro c held c' held' same
      rcases member c held with rfl | old <;> rcases member c' held' with rfl | old'
      · rfl
      · exact absurd same.symm (apart c' old')
      · exact absurd same (apart c old)
      · exact tidy.alone c old c' old' same
    · rw [values,ids]
      intro c held
      rcases member c held with rfl | old
      · exact id'.le
      · exact (tidy.taken c old).trans (Nat.le_succ _)
    · rw [values]
      intro c held
      rcases member c held with rfl | old
      · rw [← new]
        rfl
      · exact tidy.marked c old
  refine ⟨tidy',fun id => ?_⟩
  cases live : d'.liveContext id with
  | some c =>
    rw [phase_live live,if_neg (phaseOf_live _)]
    obtain ⟨held,named⟩ := (liveContext_iff tidy').mp live
    rw [values] at held
    rcases member c held with rfl | old
    · have free : ¬ id ≤ d.nextId := by omega
      have absent : d.liveContext id = none := by
        cases before : d.liveContext id with
        | none => rfl
        | some b =>
          obtain ⟨old,same⟩ := (liveContext_iff tidy).mp before
          exact absurd (same.trans named.symm) (apart b old)
      rw [phase_unborn absent free,← new]
      exact .appears
    · rw [phase_live ((liveContext_iff tidy).mpr ⟨old,named⟩)]
      exact .rests _
  | none =>
    by_cases taken : id ≤ d'.nextId
    · rw [phase_gone live taken]
      exact .leaves _
    · have absent : d.liveContext id = none := by
        cases before : d.liveContext id with
        | none => rfl
        | some b =>
          obtain ⟨old,same⟩ := (liveContext_iff tidy).mp before
          have early := tidy.taken b old
          omega
      rw [phase_unborn live taken,phase_unborn absent (by omega)]
      exact .rests _
theorem context_keeps (tidy : d.Tidy) (now : Nat) (mediaType rendition : String) :
    Keeps d (d.context now mediaType rendition).2 := by
  unfold context
  split
  · exact .same tidy rfl le_rfl
  · split
    · exact .newContext tidy now _ rendition
    · refine .modify tidy (fun c => ?_) _
      split <;> exact ⟨rfl,rfl,rfl⟩
theorem demand_keeps (tidy : d.Tidy) (now : Nat) (mediaType rendition key : String) :
    Keeps d (d.demand now mediaType rendition key).2 := by
  have kept := context_keeps tidy now mediaType rendition
  unfold demand
  generalize d.context now mediaType rendition = called at kept ⊢
  obtain ⟨_ | id,d'⟩ := called
  · exact kept
  · dsimp only at kept ⊢
    split
    · refine kept.then (modify_tidy kept.1 (fun _ => ?_) (fun _ marked => ?_) id) (modify_phase (fun _ => ?_) id)
      · rfl
      · exact marked
      · exact ⟨rfl,rfl⟩
    · exact kept
theorem begin_contexts (now : Nat) (found : Found) :
    (d.begin' now found).2.contexts = d.contexts ∧ d.nextId ≤ (d.begin' now found).2.nextId := by
  have opened : (d.opened now found).1.contexts = d.contexts ∧ d.nextId ≤ (d.opened now found).1.nextId := by
    unfold NeighbourDiscovery.opened
    split
    · exact ⟨rfl,le_rfl⟩
    · exact ⟨rfl,Nat.le_succ _⟩
  unfold begin'
  dsimp only
  split
  · exact opened
  · exact ⟨opened.1,opened.2.trans (Nat.le_succ _)⟩
theorem clear_keeps (tidy : d.Tidy) : Keeps d d.clear := by
  refine ⟨⟨fun _ member => (nomatch member),fun _ member => (nomatch member),fun _ member => (nomatch member)⟩,
    fun id => ?_⟩
  have absent : d.clear.liveContext id = none := rfl
  by_cases taken : id ≤ d.nextId
  · rw [phase_gone absent taken]
    exact .leaves _
  · have before : d.liveContext id = none := by
      cases live : d.liveContext id with
      | none => rfl
      | some c =>
        obtain ⟨held,named⟩ := (liveContext_iff tidy).mp live
        have early := tidy.taken c held
        omega
    rw [phase_unborn absent taken,phase_unborn before taken]
    exact .rests _
/-- A replacement is spent or armed for one context, and the others keep theirs. -/
theorem modify_use (tidy : d.Tidy) (ids : ∀ c, (f c).id = c.id)
    (marks : ∀ c, c.spent = c.spentAt.isSome → (f c).spent = (f c).spentAt.isSome) {id' : Nat}
    (live : d.liveContext id' = some c) {what : Use}
    (here : Follows replacementRearmMs (phaseOf c.spentAt) what (phaseOf (f c).spentAt))
    (contexts : d'.contexts = (d.modifyContext id' f).contexts) (same : d'.nextId = d.nextId) (id : Nat) :
    d'.Tidy ∧ Follows replacementRearmMs (d.phase id)
      (if id' = id then what else if d'.phase id = .gone then .leaves else .rests) (d'.phase id) := by
  have tidy' := (modify_tidy tidy ids marks id').same contexts (le_of_eq same.symm)
  have phases (id : Nat) : d'.phase id = (d.modifyContext id' f).phase id := by
    unfold phase liveContext
    rw [contexts,same]
    rfl
  refine ⟨tidy',?_⟩
  by_cases own : id' = id
  · subst own
    rw [if_pos rfl,phase_live live,phases,phase_live (modify_live ids id' live)]
    exact here
  · rw [if_neg own]
    have other := (phases id).trans (modify_other ids (Ne.symm own))
    rw [other]
    exact stays _

theorem valid_live {now attempt : Nat} {window : Window} (isOpen : d.window = some window)
    (valid : d.valid now attempt = true) :
    ∃ c, d.liveContext window.context = some c := by
  unfold NeighbourDiscovery.valid windowAttempt at valid
  rw [isOpen] at valid
  dsimp only at valid
  split at valid
  · cases valid
  · rename_i window' attempt' made
    obtain ⟨_,_,same⟩ := Option.map_eq_some_iff.mp made
    cases same
    split at valid
    · cases valid
    · simp only [Bool.and_eq_true] at valid
      have current := valid.1.1.1.2
      unfold NeighbourDiscovery.current at current
      obtain ⟨c,live,_⟩ := Option.any_eq_true .. |>.mp current
      exact ⟨c,live⟩

theorem use_follows (tidy : d.Tidy) (act : Act Found) (id : Nat) : (d.act validTicket act).Tidy ∧
    Follows replacementRearmMs (d.phase id) (d.use validTicket id act) ((d.act validTicket act).phase id) := by
  have of_keeps {d' : NeighbourDiscovery} (kept : Keeps d d') : d'.Tidy ∧
      Follows replacementRearmMs (d.phase id) (if d'.phase id = .gone then .leaves else .rests) (d'.phase id) :=
        ⟨kept.1,kept.2 id⟩
  cases act with
  | context now mediaType rendition => exact of_keeps (context_keeps tidy now mediaType rendition)
  | demand now mediaType rendition key => exact of_keeps (demand_keeps tidy now mediaType rendition key)
  | hint now pubkey keys ticket =>
    refine of_keeps (.same tidy ?_ ?_)
    · simp only [NeighbourDiscovery.act,hint]
      split <;> rfl
    · simp only [NeighbourDiscovery.act,hint]
      split <;> exact le_rfl
  | holderMiss now context pubkey key =>
    refine of_keeps ?_
    simp only [NeighbourDiscovery.act,holderMiss]
    split
    · exact .same tidy rfl le_rfl
    · split
      · exact .same tidy rfl le_rfl
      · refine .modify tidy (fun _ => ?_) _
        exact ⟨rfl,rfl,rfl⟩
  | holderAhead context pubkey =>
    refine of_keeps ?_
    simp only [NeighbourDiscovery.act,holderAhead]
    split
    · exact .same tidy rfl le_rfl
    · refine .modify tidy (fun _ => ?_) _
      exact ⟨rfl,rfl,rfl⟩
  | forget pubkey =>
    refine of_keeps (.map tidy (g := fun context => { context with holders := context.holders.erase pubkey })
      (fun _ => ?_) rfl rfl)
    exact ⟨rfl,rfl,rfl⟩
  | choose now eligible unmet room =>
    refine of_keeps ?_
    simp only [NeighbourDiscovery.act,choose]
    split <;> exact .same tidy rfl le_rfl
  | begin' now found => exact of_keeps (.same tidy (begin_contexts now found).1 (begin_contexts now found).2)
  | rearm now context allStale =>
    simp only [NeighbourDiscovery.act,use,rearm]
    cases live : d.liveContext context with
    | none => exact of_keeps (.same tidy rfl le_rfl)
    | some c =>
      cases spent : c.spentAt with
      | none =>
        simp only [Option.bind_some,spent]
        exact of_keeps (.same tidy rfl le_rfl)
      | some spentAt =>
        simp only [Option.bind_some,spent]
        split
        · exact of_keeps (.same tidy rfl le_rfl)
        · rename_i allowed
          simp only [Bool.or_eq_true,decide_eq_true_eq,Bool.not_eq_true',not_or,Nat.not_lt] at allowed
          have late : spentAt + replacementRearmMs ≤ now := by omega
          have here : Follows replacementRearmMs (phaseOf c.spentAt) (.rearms now) (phaseOf none) := by
            rw [spent]
            exact .rearms late
          simp only [Bool.true_and,decide_eq_true_eq]
          refine modify_use tidy (f := fun context => { context with spent := false, spentAt := none }) (fun _ => rfl)
            (fun _ _ => rfl) live here ?_ ?_ id
          · rfl
          · rfl
  | replaced now attempt victim =>
    simp only [NeighbourDiscovery.act,use,replaced]
    split
    · exact of_keeps (.same tidy rfl le_rfl)
    · rename_i valid
      cases isOpen : d.window with
      | none => exact of_keeps (.same tidy rfl le_rfl)
      | some window =>
        dsimp only
        split
        · exact of_keeps (.same tidy rfl le_rfl)
        · rename_i unspent
          obtain ⟨c,live⟩ := valid_live isOpen (by simpa using valid)
          have armed : c.spentAt = none := by
            have marked := tidy.marked c ((liveContext_iff tidy).mp live).1
            simpa [spent,live,marked] using unspent
          have here : Follows replacementRearmMs (phaseOf c.spentAt) (.spends now) (phaseOf (some now)) := by
            rw [armed]
            exact .spends now
          simp only [Bool.true_and,Option.any_some,decide_eq_true_eq]
          refine modify_use tidy (f := fun context => { context with spent := true, spentAt := some now })
            (fun _ => rfl)
            (fun _ _ => rfl) live here ?_ ?_ id
          · rfl
          · rfl
  | allocated attempt dial =>
    refine of_keeps ?_
    simp only [NeighbourDiscovery.act,allocated]
    split <;> exact .same tidy rfl le_rfl
  | abandoned attempt =>
    refine of_keeps ?_
    simp only [NeighbourDiscovery.act,abandoned]
    split <;> exact .same tidy rfl le_rfl
  | failed dial => exact of_keeps (.same tidy rfl le_rfl)
  | end' => exact of_keeps (.same tidy rfl le_rfl)
  | verified context =>
    simp only [NeighbourDiscovery.act,use,verified]
    cases context with
    | none => exact of_keeps (.same tidy rfl le_rfl)
    | some named =>
      cases live : d.liveContext named with
      | none =>
        simp only [Option.bind_some,live]
        exact of_keeps (.same tidy rfl le_rfl)
      | some c =>
        have same : c.id = named := by simpa using List.find?_some live
        have here : Follows replacementRearmMs (phaseOf c.spentAt) .renews (phaseOf none) := by
          cases c.spentAt with
          | none => exact .renewsArmed
          | some since => exact .renewsSpent since
        simp only [Option.bind_some,live,Bool.true_and,Option.some.injEq,decide_eq_true_eq]
        rw [same]
        refine modify_use tidy (f := fun context => { context with spent := false, spentAt := none }) (fun _ => rfl)
          (fun _ _ => rfl) live here ?_ ?_ id
        · rfl
        · rfl
  | clear => exact of_keeps (clear_keeps tidy)

theorem acts_tidy (tidy : d.Tidy) (acts : List (Act Found)) : (d.acts validTicket acts).Tidy := by
  induction acts generalizing d with
  | nil => exact tidy
  | cons act rest ih => exact ih (use_follows validTicket tidy act 0).1
theorem new_tidy : NeighbourDiscovery.new.Tidy :=
  ⟨fun _ member => (nomatch member),fun _ member => (nomatch member),fun _ member => (nomatch member)⟩
theorem use_timed {id : Nat} {act : Act Found} (timed : (d.use validTicket id act).time = some now) :
    act.reading = some now := by
  cases act with
  | replaced here attempt victim =>
    simp only [use] at timed
    split at timed
    · exact timed
    · split at timed <;> cases timed
  | rearm here context allStale =>
    simp only [use] at timed
    split at timed
    · exact timed
    · split at timed <;> cases timed
  | verified context =>
    simp only [use] at timed
    split at timed
    · cases timed
    · split at timed <;> cases timed
  | _ =>
    simp only [use] at timed
    split at timed <;> cases timed
theorem acts_spaced (acts : List (Act Found)) (ordered : (acts.filterMap Act.reading).Pairwise (· ≤ ·)) (id : Nat) :
    Spaced replacementRearmMs (fun before act =>
      (NeighbourDiscovery.new.acts validTicket before).use validTicket id act) acts := by
  have follows : ∀ before act, Follows replacementRearmMs ((NeighbourDiscovery.new.acts validTicket before).phase id)
      ((NeighbourDiscovery.new.acts validTicket before).use validTicket id act)
      ((NeighbourDiscovery.new.acts validTicket (before ++ [act])).phase id) := by
    intro before act
    have run : NeighbourDiscovery.new.acts validTicket (before ++ [act]) =
        (NeighbourDiscovery.new.acts validTicket before).act validTicket act :=
      List.foldl_append
    rw [run]
    exact (use_follows validTicket (acts_tidy validTicket new_tidy before) act id).2
  exact spaced follows (fun before act now timed => use_timed validTicket timed) ordered
end NeighbourDiscovery

/-! ### By addresses -/

namespace Script
variable (validTicket : String → Bool)

def act (s : Script) : Act Choice → Script
  | .context now mediaType rendition => (s.context now mediaType rendition).2
  | .demand now mediaType rendition key => (s.demand now mediaType rendition key).2
  | .hint now pubkey keys ticket => s.hint validTicket now pubkey keys ticket
  | .holderMiss now context pubkey key => (s.holderMiss now context pubkey key).2
  | .holderAhead context pubkey => s.holderAhead context pubkey
  | .forget pubkey => s.forget pubkey
  | .choose now eligible unmet room => (s.choose now eligible unmet room).2
  | .begin' now choice => (s.begin' now choice).2
  | .rearm now context allStale => (s.rearm now context allStale).2
  | .replaced now attempt victim => (s.replaced now attempt victim).2
  | .allocated attempt dial => s.allocated attempt dial
  | .abandoned attempt => s.abandoned attempt
  | .failed dial => s.failed dial
  | .end' => s.end'.2
  | .verified context => (s.verified context).2
  | .clear => s.clear
def acts (s : Script) (acts : List (Act Choice)) : Script := acts.foldl (act validTicket) s
/-- The replacement of the context at an address, also when another took its place. -/
def phase (s : Script) (a : Nat) : Phase := (s.contextAt a).elim .unborn (fun context => phaseOf context.spentAt)
def use (s : Script) (a : Nat) : Act Choice → Use
  | .replaced now attempt victim =>
    if (s.replaced now attempt victim).1 && ((s.attemptAt attempt).bind (fun o => s.windowAt o.window)).any
      (·.context = a)
    then .spends now else .rests
  | .rearm now context allStale => if (s.rearm now context allStale).1 && context = a then .rearms now else .rests
  | .verified context => if (s.verified context).1 && context = some a then .renews else .rests
  | _ => .rests

/-- No context is beyond the last address that was taken. -/
def Taken (s : Script) : Prop := ∀ a, s.allocations < a → s.contextAt a = none

variable {s : Script}

/-- The contexts there are keep their replacements. -/
structure Same (s s' : Script) : Prop where
  contexts : ∀ a, (s'.contextAt a).map (·.spentAt) = (s.contextAt a).map (·.spentAt)
  more : s.allocations ≤ s'.allocations
theorem Same.refl (s : Script) : Same s s := ⟨fun _ => rfl,le_rfl⟩
theorem Same.trans {s' s'' : Script} (first : Same s s') (second : Same s' s'') : Same s s'' :=
  ⟨fun a => (second.contexts a).trans (first.contexts a),first.more.trans second.more⟩
theorem phase_eq (s : Script) (a : Nat) : s.phase a = ((s.contextAt a).map (·.spentAt)).elim .unborn phaseOf := by
  unfold Script.phase
  cases s.contextAt a <;> rfl
theorem Same.phase (same : Same s s') (a : Nat) : s'.phase a = s.phase a := by
  rw [phase_eq,phase_eq,same.contexts a]
theorem Same.taken (same : Same s s') (taken : s.Taken) : s'.Taken := by
  intro a beyond
  have absent := same.contexts a
  rw [taken a (same.more.trans_lt beyond)] at absent
  exact Option.map_eq_none_iff.mp absent
theorem Same.update (a : Nat) {f : ContextObject → ContextObject} (kept : ∀ c, (f c).spentAt = c.spentAt) :
    Same s (s.updateContext a f) := by
  refine ⟨fun b => ?_,le_rfl⟩
  change (Heap.update s.contextAt a f b).map _ = _
  unfold Heap.update
  split
  · cases s.contextAt b with
    | none => rfl
    | some c => exact congrArg some (kept c)
  · rfl
theorem Same.of_contexts (contexts : s'.contextAt = s.contextAt) (more : s.allocations ≤ s'.allocations) : Same s s' :=
  ⟨fun a => by rw [contexts],more⟩

/-- What a call does to a context that neither spends nor arms its replacement. -/
def Keeps (s s' : Script) : Prop := s'.Taken ∧ ∀ a, Follows replacementRearmMs (s.phase a) .rests (s'.phase a)
theorem Same.keeps (same : Same s s') (taken : s.Taken) : Keeps s s' := by
  refine ⟨same.taken taken,fun a => ?_⟩
  rw [same.phase a]
  exact .rests _
theorem Keeps.then {s' s'' : Script} (keeps : Keeps s s') (same : Same s' s'') : Keeps s s'' := by
  refine ⟨same.taken keeps.1,fun a => ?_⟩
  rw [same.phase a]
  exact keeps.2 a
theorem context_keeps (taken : s.Taken) (now : Nat) (mediaType rendition : String) :
    Keeps s (s.context now mediaType rendition).2 := by
  unfold context
  split
  · exact (Same.refl s).keeps taken
  · split
    · refine ⟨fun a beyond => ?_,fun a => ?_⟩
      · have beyond : s.allocations + 1 < a := beyond
        exact (if_neg (by omega)).trans (taken a (by omega))
      · by_cases here : a = s.allocations + 1
        · have free : s.phase a = .unborn := by
            unfold Script.phase
            rw [taken a (by omega)]
            rfl
          rw [free]
          unfold Script.phase Heap.put
          dsimp only
          rw [if_pos here]
          exact .appears
        · unfold Script.phase Heap.put
          dsimp only
          rw [if_neg here]
          exact .rests _
    · refine (Same.update _ (fun c => ?_)).keeps taken
      unfold ContextObject.touched
      split <;> rfl
theorem demand_keeps (taken : s.Taken) (now : Nat) (mediaType rendition key : String) :
    Keeps s (s.demand now mediaType rendition key).2 := by
  have kept := context_keeps taken now mediaType rendition
  unfold demand
  generalize s.context now mediaType rendition = called at kept ⊢
  obtain ⟨_ | a,s'⟩ := called
  · exact kept
  · dsimp only at kept ⊢
    split
    · refine kept.then (Same.update a (fun _ => ?_))
      rfl
    · exact kept
theorem forget_same (pubkey : String) (addresses : List Nat) : ∀ s : Script, Same s (addresses.foldl
    (fun s a => s.updateContext a (fun context => { context with holders := context.holders.erase pubkey })) s) := by
  induction addresses with
  | nil => exact fun s => .refl s
  | cons a rest ih =>
    intro s
    have first : Same s (s.updateContext a (fun context => { context with holders := context.holders.erase pubkey })) :=
      .update a (fun _ => rfl)
    exact first.trans (ih _)
theorem begin_same (now : Nat) (choice : Choice) : Same s (s.begin' now choice).2 := by
  have opened : Same s (s.opened now choice).1 := by
    unfold Script.opened
    split
    · exact .refl s
    · exact .of_contexts rfl (Nat.le_succ _)
  unfold begin'
  dsimp only
  split
  · exact opened
  · split
    · exact opened
    · exact opened.trans (.of_contexts rfl (Nat.le_succ _))

theorem update_use (taken : s.Taken) {b : Nat} {c : ContextObject} (held : s.contextAt b = some c)
    {f : ContextObject → ContextObject} {what : Use}
    (here : Follows replacementRearmMs (phaseOf c.spentAt) what (phaseOf (f c).spentAt))
    (contexts : s'.contextAt = s.contextAt.update b f) (same : s'.allocations = s.allocations) (a : Nat) :
    s'.Taken ∧ Follows replacementRearmMs (s.phase a) (if b = a then what else .rests) (s'.phase a) := by
  have lies (a : Nat) : s'.contextAt a = if a = b then (s.contextAt a).map f else s.contextAt a := by
    rw [contexts]
    rfl
  refine ⟨fun a beyond => ?_,?_⟩
  · have free := taken a (same ▸ beyond)
    rw [lies,free]
    split <;> rfl
  · by_cases own : b = a
    · subst own
      rw [if_pos rfl]
      unfold Script.phase
      rw [lies,if_pos rfl,held]
      exact here
    · rw [if_neg own]
      unfold Script.phase
      rw [lies,if_neg (Ne.symm own)]
      exact .rests _
theorem use_follows (taken : s.Taken) (act : Act Choice) (a : Nat) : (s.act validTicket act).Taken ∧
    Follows replacementRearmMs (s.phase a) (s.use a act) ((s.act validTicket act).phase a) := by
  have of_keeps {s' : Script} (kept : Keeps s s') :
      s'.Taken ∧ Follows replacementRearmMs (s.phase a) .rests (s'.phase a) :=
    ⟨kept.1,kept.2 a⟩
  have of_same {s' : Script} (same : Same s s') := of_keeps (same.keeps taken)
  cases act with
  | context now mediaType rendition => exact of_keeps (context_keeps taken now mediaType rendition)
  | demand now mediaType rendition key => exact of_keeps (demand_keeps taken now mediaType rendition key)
  | hint now pubkey keys ticket =>
    refine of_same ?_
    simp only [Script.act,hint]
    split
    · exact .of_contexts rfl le_rfl
    · exact .refl s
  | holderMiss now context pubkey key =>
    refine of_same ?_
    simp only [Script.act,holderMiss]
    split
    · exact .refl s
    · split
      · exact .refl s
      · refine .update _ (fun _ => ?_)
        rfl
  | holderAhead context pubkey =>
    refine of_same ?_
    simp only [Script.act,holderAhead]
    split
    · exact .refl s
    · refine .update _ (fun _ => ?_)
      rfl
  | forget pubkey => exact of_same (forget_same pubkey _ s)
  | choose now eligible unmet room =>
    refine of_same ?_
    simp only [Script.act,choose]
    split
    · exact .refl s
    · exact .of_contexts rfl le_rfl
  | begin' now choice => exact of_same (begin_same now choice)
  | rearm now context allStale =>
    simp only [Script.act,use,rearm]
    cases live : s.liveContext context with
    | none => exact of_same (.refl s)
    | some c =>
      cases spent : c.spentAt with
      | none =>
        simp only [Option.bind_some,spent]
        exact of_same (.refl s)
      | some spentAt =>
        simp only [Option.bind_some,spent]
        split
        · exact of_same (.refl s)
        · rename_i allowed
          simp only [Bool.or_eq_true,decide_eq_true_eq,Bool.not_eq_true',not_or,Nat.not_lt] at allowed
          have late : spentAt + replacementRearmMs ≤ now := by omega
          have here : Follows replacementRearmMs (phaseOf c.spentAt) (.rearms now) (phaseOf none) := by
            rw [spent]
            exact .rearms late
          simp only [Bool.true_and,decide_eq_true_eq]
          refine update_use taken (liveContext_at live) (f := fun context => { context with spentAt := none })
            here ?_ ?_ a
          · rfl
          · rfl
  | replaced now attempt victim =>
    simp only [Script.act,use,replaced]
    split
    · exact of_same (.refl s)
    · rename_i valid
      obtain ⟨o,w,c,stored,_,there,_,live⟩ := valid_inv (by simpa using valid)
      have held := liveContext_at live
      simp only [stored,there,Option.bind_some,Option.any_some]
      split
      · exact of_same (.refl s)
      · rename_i unspent
        have armed : c.spentAt = none := by simpa [Script.spent,held,ContextObject.spent] using unspent
        have here : Follows replacementRearmMs (phaseOf c.spentAt) (.spends now) (phaseOf (some now)) := by
          rw [armed]
          exact .spends now
        simp only [Bool.true_and,decide_eq_true_eq]
        refine update_use taken held (f := fun context => { context with spentAt := some now }) here ?_ ?_ a
        · rfl
        · rfl
  | allocated attempt dial =>
    refine of_same ?_
    simp only [Script.act,allocated]
    split
    · exact .refl s
    · exact .of_contexts rfl le_rfl
  | abandoned attempt =>
    refine of_same ?_
    simp only [Script.act,abandoned]
    split
    · exact .refl s
    · exact .of_contexts rfl le_rfl
  | failed dial =>
    refine of_same ?_
    simp only [Script.act,failed]
    split
    · exact .refl s
    · exact .of_contexts rfl le_rfl
  | end' => exact of_same (.of_contexts rfl le_rfl)
  | verified context =>
    simp only [Script.act,use,verified]
    cases context with
    | none => exact of_same (.refl s)
    | some named =>
      cases live : s.liveContext named with
      | none =>
        simp only [Option.bind_some,live,Option.map_none]
        exact of_same (.refl s)
      | some c =>
        have here : Follows replacementRearmMs (phaseOf c.spentAt) .renews (phaseOf none) := by
          cases c.spentAt with
          | none => exact .renewsArmed
          | some since => exact .renewsSpent since
        simp only [Option.bind_some,live,Option.map_some,Bool.true_and,Option.some.injEq,decide_eq_true_eq]
        refine update_use taken (liveContext_at live) (f := fun context => { context with spentAt := none })
          here ?_ ?_ a
        · rfl
        · rfl
  | clear => exact of_same (.of_contexts rfl le_rfl)
theorem acts_taken (taken : s.Taken) (acts : List (Act Choice)) : (s.acts validTicket acts).Taken := by
  induction acts generalizing s with
  | nil => exact taken
  | cons act rest ih => exact ih (use_follows validTicket taken act 0).1
theorem use_timed {a : Nat} {act : Act Choice} (timed : (s.use a act).time = some now) : act.reading = some now := by
  cases act with
  | replaced here attempt victim =>
    simp only [use] at timed
    split at timed
    · exact timed
    · cases timed
  | rearm here context allStale =>
    simp only [use] at timed
    split at timed
    · exact timed
    · cases timed
  | verified context =>
    simp only [use] at timed
    split at timed <;> cases timed
  | _ => cases timed
theorem acts_spaced (acts : List (Act Choice)) (ordered : (acts.filterMap Act.reading).Pairwise (· ≤ ·)) (a : Nat) :
    Spaced replacementRearmMs (fun before act => (Script.new.acts validTicket before).use a act) acts := by
  have start : Script.new.Taken := fun _ _ => rfl
  have follows : ∀ before act, Follows replacementRearmMs ((Script.new.acts validTicket before).phase a)
      ((Script.new.acts validTicket before).use a act) ((Script.new.acts validTicket (before ++ [act])).phase a) := by
    intro before act
    have run : Script.new.acts validTicket (before ++ [act]) =
        (Script.new.acts validTicket before).act validTicket act := List.foldl_append
    rw [run]
    exact (use_follows validTicket (acts_taken validTicket start before) act a).2
  exact spaced follows (fun before act now timed => use_timed timed) ordered
end Script

/-- Between two replacements of one context lies a verified segment for it or 20 s, in both
    implementations; and with ids a context is spent exactly while it knows since when. -/
theorem replacements_spaced (validTicket : String → Bool) :
    (∀ acts : List (Act Found), (acts.filterMap Act.reading).Pairwise (· ≤ ·) → ∀ id,
      Spaced 20000 (fun before act => (NeighbourDiscovery.new.acts validTicket before).use validTicket id act) acts) ∧
    (∀ acts : List (Act Choice), (acts.filterMap Act.reading).Pairwise (· ≤ ·) → ∀ a,
      Spaced 20000 (fun before act => (Script.new.acts validTicket before).use a act) acts) ∧
    ∀ acts, ∀ context ∈ (NeighbourDiscovery.new.acts validTicket acts).contexts.values, context.spent =
      context.spentAt.isSome :=
  ⟨NeighbourDiscovery.acts_spaced validTicket,Script.acts_spaced validTicket,
    fun acts => (NeighbourDiscovery.acts_tidy validTicket NeighbourDiscovery.new_tidy acts).marked⟩
private def searchedKey : String := String.ofList (List.replicate 64 'a')
/-- A replacement, 20 s and another one. -/
def rearmedActs : List (Act Found) :=
  [.context 0 "main" "r",.demand 0 "main" "r" searchedKey,.hint 0 searchedKey [searchedKey] none,
  .begin' 0 ⟨1,.main,⟨searchedKey,[searchedKey],none,0⟩,searchedKey,some 0⟩,.replaced 0 3 none,.end',
  .demand 20000 "main" "r" searchedKey,.hint 20000 searchedKey [searchedKey] none,.rearm 20000 1 true,
  .begin' 20000 ⟨1,.main,⟨searchedKey,[searchedKey],none,20000⟩,searchedKey,some 20000⟩,.replaced 20000 5 none]
theorem replacements_spaced_rearmed :
    (NeighbourDiscovery.new.acts (fun _ => true) (rearmedActs.take 4)).use (fun _ => true) 1 (.replaced 0 3 none) =
      .spends 0 ∧
    (NeighbourDiscovery.new.acts (fun _ => true) (rearmedActs.take 10)).use (fun _ => true) 1 (.replaced 20000 5 none) =
      .spends 20000 ∧
    Spaced 20000 (fun before act => (NeighbourDiscovery.new.acts (fun _ => true) before).use (fun _ => true) 1 act)
      rearmedActs :=
  ⟨by decide +kernel,by decide +kernel,(replacements_spaced (fun _ => true)).1 rearmedActs (by decide +kernel) 1⟩

end RelaySwarm.Neighbours
