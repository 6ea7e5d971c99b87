import RelaySwarm.DiscoveryCalls

/-!
The search for a candidate and the replacement window, in both implementations. The
stored attempts of the one are the attempts of the open window in the heap of the
other; an attempt of an earlier window is still written through its references there,
where nothing reads it again.
-/
namespace RelaySwarm.Neighbours
open RelaySwarm.Script

section
variable {d : NeighbourDiscovery} {s : Script}

/-! ### A peer is forgotten -/

private theorem forget_fold (pubkey : String) : ∀ (addresses : List Nat) {d : NeighbourDiscovery} {s : Script},
    Simulates d s → (∀ a ∈ addresses, ∃ c, s.contextAt a = some c) →
    Simulates
      { d with contexts := d.contexts.mapValues (fun _ context =>
          if context.id ∈ addresses then { context with holders := context.holders.erase pubkey } else context) }
      (addresses.foldl (fun s a => s.updateContext a (fun context =>
        { context with holders := context.holders.erase pubkey })) s) := by
  intro addresses
  induction addresses with
  | nil =>
    intro d s sim _
    have same : d.contexts.mapValues (fun _ context => if context.id ∈ ([] : List Nat) then
        { context with holders := context.holders.erase pubkey } else context) = d.contexts :=
      IndexMap.ext (by simp [IndexMap.mapValues])
    rw [same]
    exact sim
  | cons a rest ih =>
    intro d s sim held
    obtain ⟨c,there⟩ := held a List.mem_cons_self
    have first := sim.updateContext there (f := fun context => { context with holders := context.holders.erase pubkey })
      (g := fun context => { context with holders := context.holders.erase pubkey }) rfl rfl
      (Proper.erased (sim.proper a c there) pubkey)
    have all := ih first (fun b member => by
      obtain ⟨o,here⟩ := held b (List.mem_cons_of_mem a member)
      by_cases same : b = a
      · exact ⟨_,by simp only [Script.updateContext,Heap.update,same,if_true,there,Option.map_some]; rfl⟩
      · exact ⟨o,by simpa [Script.updateContext,Heap.update,same] using here⟩)
    have twice :
        (d.modifyContext a (fun context => { context with holders := context.holders.erase pubkey })).contexts.mapValues
        (fun _ context => if context.id ∈ rest then { context with holders := context.holders.erase pubkey }
          else context) =
        d.contexts.mapValues (fun _ context =>
          if context.id ∈ a :: rest then { context with holders := context.holders.erase pubkey } else context) := by
      rw [NeighbourDiscovery.modifyContext,IndexMap.mapValues_mapValues]
      refine IndexMap.mapValues_congr (fun e _ => ?_)
      by_cases same : e.2.id = a
      · by_cases later : e.2.id ∈ rest
        · simp [same,same ▸ later,IndexMap.erase_erase]
        · simp [same,same ▸ later]
      · simp [same]
    rw [twice] at all
    exact all
theorem Simulates.forget (sim : Simulates d s) (pubkey : String) : Simulates (d.forget pubkey) (s.forget pubkey) := by
  have held : ∀ a ∈ s.contexts.values, ∃ c, s.contextAt a = some c := fun a member => by
    obtain ⟨c,live⟩ := sim.live_iff.mp member
    exact ⟨c,liveContext_at live⟩
  have all := forget_fold pubkey s.contexts.values sim held
  have every : d.contexts.mapValues (fun _ context => if context.id ∈ s.contexts.values then
      { context with holders := context.holders.erase pubkey } else context) =
      d.contexts.mapValues (fun _ context => { context with holders := context.holders.erase pubkey }) := by
    refine IndexMap.mapValues_congr (fun e member => ?_)
    have known : e.2.id ∈ s.contexts.values := by
      have value : e.2 ∈ d.contexts.values := List.mem_map_of_mem member
      rw [sim.values] at value
      obtain ⟨a,among,same⟩ := List.mem_map.mp value
      rw [← same]
      exact among
    rw [if_pos known]
  rw [every] at all
  exact all

/-! ### The search -/

/-- What the one finds where the other chooses. -/
def Script.found (s : Script) (choice : Choice) : Found :=
  ⟨choice.context,(s.contextOf choice.context).mediaType,choice.candidate,choice.key,
    (s.contextOf choice.context).lastDemandAt⟩
/-- A choice of a context that exists, for a key that is not empty. -/
def Script.Chosen (s : Script) (choice : Choice) : Prop := (∃ c, s.contextAt choice.context = some c) ∧ choice.key ≠ ""

theorem findHinted_eq {keys : List String} (proper : ∀ key ∈ keys, key ≠ "") (now : Nat) (eligible : Candidate → Bool)
    (candidates : List Candidate) :
    NeighbourDiscovery.findHinted keys now eligible candidates = Script.findHinted keys now eligible candidates := by
  induction candidates with
  | nil => rfl
  | cons candidate rest ih =>
    unfold NeighbourDiscovery.findHinted Script.findHinted
    rw [ih]
    split
    · rfl
    · cases seen : keys.find? (fun key => key ∈ candidate.haves) with
      | none => rfl
      | some key =>
        dsimp only
        rw [if_neg (proper key (List.mem_of_find?_eq_some seen))]
theorem findHinted_key {keys : List String} (now : Nat) (eligible : Candidate → Bool) {found : Candidate × String} :
    ∀ {candidates : List Candidate}, Script.findHinted keys now eligible candidates = some found → found.2 ≠ "" := by
  intro candidates
  induction candidates with
  | nil => intro none; cases none
  | cons candidate rest ih =>
    intro some
    unfold Script.findHinted at some
    split at some
    · exact ih some
    · split at some
      · split at some
        · exact ih some
        · cases some
          assumption
      · exact ih some
theorem findHinted_isSome {keys : List String} (now : Nat) (candidates : List Candidate) :
    (NeighbourDiscovery.findHinted keys now (fun _ => true) candidates).isSome =
      candidates.any (fun candidate => candidate.fresh now && keys.any (fun key => key ∈ candidate.haves)) := by
  induction candidates with
  | nil => rfl
  | cons candidate rest ih =>
    unfold NeighbourDiscovery.findHinted
    rw [List.any_cons]
    cases fresh : candidate.fresh now with
    | false => simpa using ih
    | true =>
      cases seen : keys.find? (fun key => key ∈ candidate.haves) with
      | none =>
        have missing : keys.any (fun key => key ∈ candidate.haves) = false := by
          rw [List.any_eq_false]
          exact List.find?_eq_none.mp seen
        simpa [missing] using ih
      | some key =>
        have hit : keys.any (fun key => key ∈ candidate.haves) = true :=
          List.any_eq_true.mpr ⟨key,List.mem_of_find?_eq_some seen,by simpa using List.find?_some seen⟩
        simp [hit]
theorem Simulates.hintedFor (sim : Simulates d s) (now : Nat) {a : Nat} (live : (s.liveContext a).isSome)
    (eligible : Candidate → Bool) : d.hintedFor now a eligible = (s.hintedFor now a eligible).map s.found := by
  obtain ⟨c,some⟩ := Option.isSome_iff_exists.mp live
  have held := liveContext_at some
  unfold NeighbourDiscovery.hintedFor Script.hintedFor
  rw [sim.liveContext,some,held,sim.candidates]
  simp only [Option.map_some,Option.map_map]
  have keys : (c.known a).keys = c.keys := rfl
  rw [keys,findHinted_eq (sim.proper a c held).keys]
  refine congrFun (congrArg Option.map (funext fun found => ?_)) _
  simp only [Function.comp_apply,Script.found,contextOf_some held]
  rfl
theorem Simulates.hinting (sim : Simulates d s) (now : Nat) {a : Nat} (live : (s.liveContext a).isSome) :
    (d.hintedFor now a (fun _ => true)).isSome = s.hinting now a := by
  obtain ⟨c,some⟩ := Option.isSome_iff_exists.mp live
  have held := liveContext_at some
  unfold NeighbourDiscovery.hintedFor Script.hinting
  rw [sim.liveContext,some,held,sim.candidates]
  simp only [Option.map_some,Option.any_some,Option.isSome_map]
  exact findHinted_isSome now _
theorem hintedFor_chosen {now a : Nat} {eligible : Candidate → Bool} {choice : Choice}
    (hinted : s.hintedFor now a eligible = some choice) : s.Chosen choice := by
  unfold Script.hintedFor at hinted
  cases held : s.contextAt a with
  | none => simp only [held] at hinted; cases hinted
  | some c =>
    simp only [held] at hinted
    obtain ⟨found,seen,rfl⟩ := Option.map_eq_some_iff.mp hinted
    exact ⟨⟨c,held⟩,findHinted_key now eligible seen⟩
/-- The contexts are searched in the same turn, for the same reasons. -/
theorem Simulates.chooseFrom (sim : Simulates d s) (now : Nat) (eligible : Candidate → Bool) (unmet : MediaType → Bool)
    (room vacant : Bool) : ∀ (addresses : List Nat) (noHint ineligible : Bool) (counters : Counters),
    (d.chooseFrom now eligible unmet room vacant (addresses.map (fun a => (a,(s.contextOf a).mediaType)))
        noHint ineligible counters =
      ((s.chooseFrom now eligible unmet room vacant addresses noHint ineligible counters).1.map s.found,
        (s.chooseFrom now eligible unmet room vacant addresses noHint ineligible counters).2)) ∧
    ∀ choice, (s.chooseFrom now eligible unmet room vacant addresses noHint ineligible counters).1 = some choice →
      s.Chosen choice := by
  intro addresses
  induction addresses with
  | nil => exact fun _ _ _ => ⟨rfl,fun _ none => by cases none⟩
  | cons a rest ih =>
    intro noHint ineligible counters
    simp only [List.map_cons]
    unfold NeighbourDiscovery.chooseFrom Script.chooseFrom
    rw [sim.current]
    by_cases current : s.current now a = true
    · have live := current_live current
      obtain ⟨c,some⟩ := Option.isSome_iff_exists.mp live
      have held := liveContext_at some
      rw [sim.spent live,contextOf_some held,held]
      simp only [Option.any_some,ContextObject.known]
      by_cases skip : (!s.current now a || !unmet c.mediaType || (!room && s.spent a && !vacant)) = true
      · simp only [skip,if_true]
        exact ih noHint ineligible counters
      · simp only [skip,Bool.false_eq_true,if_false]
        rw [sim.hintedFor now live eligible]
        cases found : s.hintedFor now a eligible with
        | some choice => exact ⟨rfl,fun other same => by cases same; exact hintedFor_chosen found⟩
        | none =>
          rw [sim.hinting now live]
          dsimp only [Option.map_none]
          by_cases hinting : s.hinting now a = true
          · rw [if_pos hinting,if_pos hinting]
            exact ih noHint true _
          · rw [if_neg hinting,if_neg hinting]
            exact ih true ineligible _
    · have skipped : s.current now a = false := by simpa using current
      simp only [skipped,Bool.not_false,Bool.true_or,if_true]
      exact ih noHint ineligible counters
theorem Simulates.attempting (sim : Simulates d s) :
    d.window.any (fun window => window.attempt.isSome) = s.windowAttempt.isSome := by
  unfold Script.windowAttempt
  rcases sim.window_cases with ⟨gone,gone'⟩ | ⟨b,w,c,isOpen,there,held,isOpen'⟩
  · simp [gone,gone']
  · simp only [isOpen,isOpen',there,Option.any_some,Option.bind_some]
    cases attempt : w.attempt with
    | none => rfl
    | some t =>
      obtain ⟨w',there',_,attempts⟩ := sim.opened b isOpen
      rw [there] at there'
      cases there'
      obtain ⟨o,stored,_⟩ := attempts t attempt
      simp [Script.attemptOf,stored]
theorem Simulates.vacant (sim : Simulates d s) :
    d.window.any (·.vacant) = (s.window.bind s.windowAt).any (·.vacant) := by
  rcases sim.window_cases with ⟨gone,gone'⟩ | ⟨b,w,c,isOpen,there,held,isOpen'⟩
  · simp [gone,gone']
  · simp [isOpen,isOpen',there]
theorem Simulates.searched (sim : Simulates d s) :
    d.searched = s.searched.map (fun a => (a,(s.contextOf a).mediaType)) := by
  unfold NeighbourDiscovery.searched Script.searched
  rcases sim.window_cases with ⟨gone,gone'⟩ | ⟨b,w,c,isOpen,there,held,isOpen'⟩
  · simp only [gone,gone',Option.bind_none,sim.values,List.map_map]
    rfl
  · simp only [isOpen,isOpen',there,Option.bind_some,List.map_cons,List.map_nil,contextOf_some held]
    rfl
theorem Simulates.choose (sim : Simulates d s) (now : Nat) (eligible : Candidate → Bool) (unmet : MediaType → Bool)
    (room : Bool) :
    (d.choose now eligible unmet room).1 = (s.choose now eligible unmet room).1.map s.found ∧
      Simulates (d.choose now eligible unmet room).2 (s.choose now eligible unmet room).2 ∧
      (∀ choice, (s.choose now eligible unmet room).1 = some choice → s.Chosen choice) ∧
      (s.choose now eligible unmet room).2.contextAt = s.contextAt := by
  unfold NeighbourDiscovery.choose Script.choose
  rw [sim.attempting]
  by_cases attempting : s.windowAttempt.isSome = true
  · simp only [attempting,if_true]
    exact ⟨rfl,sim,fun _ none => (by cases none),trivial⟩
  · simp only [attempting,Bool.false_eq_true,if_false]
    rw [sim.searched,sim.vacant,sim.counters]
    obtain ⟨same,chosen⟩ := sim.chooseFrom now eligible unmet room ((s.window.bind s.windowAt).any (·.vacant))
      s.searched false false s.counters
    rw [same]
    exact ⟨rfl,sim.count (fun _ => _),chosen,trivial⟩
end
end RelaySwarm.Neighbours
