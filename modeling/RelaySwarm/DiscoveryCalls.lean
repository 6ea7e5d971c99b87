import RelaySwarm.DiscoverySimulation

/-!
What each call changes, in both implementations. Three kinds of change cover them: a
live context is changed in place, the window is, and a new object is made.
-/
namespace RelaySwarm.Neighbours
open RelaySwarm.Script

variable {a : Nat} {c : ContextObject}
section
variable {d : NeighbourDiscovery} {s : Script}

/-! ### Contexts -/

theorem windowOf_congr {s s' : Script} (windows : s'.windowAt a = s.windowAt a)
    (contexts : ∀ w, s.windowAt a = some w → (s'.contextOf w.context).mediaType = (s.contextOf w.context).mediaType)
    (attempts : ∀ w t, s.windowAt a = some w → w.attempt = some t → s'.attemptAt t = s.attemptAt t) :
    s'.windowOf a = s.windowOf a := by
  unfold Script.windowOf
  rw [windows]
  cases there : s.windowAt a with
  | none => rfl
  | some w =>
    have attempt : w.attempt.bind s'.attemptOf = w.attempt.bind s.attemptOf := by
      cases held : w.attempt with
      | none => rfl
      | some t => simp only [Option.bind_some,Script.attemptOf,attempts w t there held]
    simp only [Option.map_some,attempt,contexts w there]
theorem contextOf_update (s : Script) (a b : Nat) (g : ContextObject → ContextObject) (held : (s.contextAt a).isSome) :
    (s.updateContext a g).contextOf b = if b = a
      then (g ((s.contextAt a).getD ⟨.main,"",[],none,0,none,.empty⟩)).known a
      else s.contextOf b := by
  obtain ⟨c,there⟩ := Option.isSome_iff_exists.mp held
  by_cases same : b = a
  · subst same
    simp [Script.contextOf,Script.updateContext,Heap.update,there]
  · simp [Script.contextOf,Script.updateContext,Heap.update,same]
theorem Simulates.updateContext (sim : Simulates d s) (held : s.contextAt a = some c)
    {f : Context → Context} {g : ContextObject → ContextObject} (alike : f (c.known a) = (g c).known a)
    (typed : (g c).mediaType = c.mediaType) (proper : (g c).Proper) :
    Simulates (d.modifyContext a f) (s.updateContext a g) := by
  have read (b : Nat) : (s.updateContext a g).contextOf b = if b = a then (g c).known a else s.contextOf b := by
    rw [contextOf_update s a b g (by rw [held]; rfl),held]
    rfl
  have media (b : Nat) : ((s.updateContext a g).contextOf b).mediaType = (s.contextOf b).mediaType := by
    rw [read]
    split_ifs with same
    · rw [same,contextOf_some held]
      exact typed
    · rfl
  have kept {b : Nat} : (∃ o, s.contextAt b = some o) → ∃ o, (s.updateContext a g).contextAt b = some o := by
    rintro ⟨o,there⟩
    by_cases same : b = a
    · exact ⟨g o,by simp [Script.updateContext,Heap.update,same,same ▸ there]⟩
    · exact ⟨o,by simp [Script.updateContext,Heap.update,same,there]⟩
  refine ⟨sim.ids,?_,sim.candidates,sim.counters,?_,?_,?_,?_,?_,sim.owned,sim.stored,sim.kept⟩
  · show d.contexts.mapValues (fun _ context => if context.id = a then f context else context) =
      s.contexts.mapValues (fun _ => (s.updateContext a g).contextOf)
    rw [sim.contexts,IndexMap.mapValues_mapValues]
    refine IndexMap.mapValues_congr (fun e _ => ?_)
    rw [read,contextOf_id]
    split_ifs with same
    · rw [same,contextOf_some held,alike]
    · rfl
  · show d.window = s.window.bind (s.updateContext a g).windowOf
    rw [sim.window]
    cases s.window with
    | none => rfl
    | some b =>
      have same : (s.updateContext a g).windowOf b = s.windowOf b :=
        windowOf_congr rfl (fun w _ => media w.context) (fun _ _ _ _ => rfl)
      exact same.symm
  · intro m b there
    obtain ⟨o,here,rfl⟩ := sim.typed m b there
    by_cases same : b = a
    · subst same
      rw [held] at here
      cases here
      exact ⟨g c,by simp [Script.updateContext,Heap.update,held],typed⟩
    · exact ⟨o,by simp [Script.updateContext,Heap.update,same,here],rfl⟩
  · intro b o there
    by_cases same : b = a
    · subst same
      simp only [Script.updateContext,Heap.update,if_true,held,Option.map_some,Option.some.injEq] at there
      exact there ▸ proper
    · exact sim.proper b o (by simpa [Script.updateContext,Heap.update,same] using there)
  · intro b beyond
    obtain ⟨context,rest⟩ := sim.bounded b beyond
    refine ⟨?_,rest⟩
    simp only [Script.updateContext,Heap.update]
    split_ifs
    · rw [context]; rfl
    · exact context
  · intro b isOpen
    obtain ⟨w,there,context,attempt⟩ := sim.opened b isOpen
    exact ⟨w,there,kept context,attempt⟩
theorem Simulates.count (sim : Simulates d s) (f : Counters → Counters) :
    Simulates { d with counters := f d.counters } { s with counters := f s.counters } :=
  ⟨sim.ids,sim.contexts,sim.candidates,congrArg f sim.counters,sim.window,sim.typed,sim.proper,sim.bounded,sim.opened,
    sim.owned,sim.stored,sim.kept⟩
theorem Simulates.known_bounded (sim : Simulates d s) (held : s.contextAt a = some c) :
    a ≤ s.allocations := by
  by_contra beyond
  have none := (sim.bounded a (by omega)).1
  rw [none] at held
  cases held

theorem Simulates.newContext (sim : Simulates d s) (c : ContextObject) (proper : c.Proper) :
    Simulates { d with
      nextId := s.allocations + 1, contexts := d.contexts.insert c.mediaType (c.known (s.allocations + 1)) }
      { s with
        contextAt := s.contextAt.put (s.allocations + 1) c, allocations := s.allocations + 1
        contexts := s.contexts.insert c.mediaType (s.allocations + 1) } := by
  obtain ⟨s',made⟩ : ∃ s' : Script, s' = { s with
      contextAt := s.contextAt.put (s.allocations + 1) c, allocations := s.allocations + 1
      contexts := s.contexts.insert c.mediaType (s.allocations + 1) } := ⟨_,rfl⟩
  rw [← made]
  have new : s'.contextAt (s.allocations + 1) = some c := by simp [made,Heap.put]
  have old {a : Nat} (known : a ≤ s.allocations) : s'.contextAt a = s.contextAt a := by
    rw [made]
    exact if_neg (by omega)
  have read {a : Nat} (known : a ≤ s.allocations) : s'.contextOf a = s.contextOf a := by
    rw [Script.contextOf,old known]
    rfl
  have windows {a : Nat} (isOpen : s.window = some a) : s'.windowOf a = s.windowOf a := by
    refine windowOf_congr (by rw [made]) (fun w there => ?_) (fun _ _ _ _ => by rw [made])
    obtain ⟨w',there',⟨o,held⟩,_⟩ := sim.opened a isOpen
    rw [there] at there'
    cases there'
    rw [read (sim.known_bounded held)]
  refine ⟨by rw [made],?_,by rw [made]; exact sim.candidates,by rw [made]; exact sim.counters,?_,?_,?_,?_,?_,?_,?_,?_⟩
  · have entries : s'.contexts = s.contexts.insert c.mediaType (s.allocations + 1) := by rw [made]
    show d.contexts.insert c.mediaType (c.known (s.allocations + 1)) = _
    rw [entries,IndexMap.mapValues_insert,sim.contexts,contextOf_some new]
    refine congrArg (fun m => IndexMap.insert m c.mediaType (c.known (s.allocations + 1))) (IndexMap.mapValues_congr ?_)
    intro e member
    obtain ⟨o,held,_⟩ := sim.typed e.1 e.2 (IndexMap.mem_entries.mp member)
    exact (read (sim.known_bounded held)).symm
  · show d.window = s'.window.bind s'.windowOf
    rw [sim.window,show s'.window = s.window by rw [made]]
    cases held : s.window with
    | none => rfl
    | some a => exact (windows held).symm
  · intro m a there
    rw [show s'.contexts = s.contexts.insert c.mediaType (s.allocations + 1) by rw [made],IndexMap.get?_insert] at there
    split_ifs at there with same
    · cases there
      exact ⟨c,new,same.symm⟩
    · obtain ⟨o,held,typed⟩ := sim.typed m a there
      exact ⟨o,(old (sim.known_bounded held)).trans held,typed⟩
  · intro a o there
    by_cases same : a = s.allocations + 1
    · rw [same,new] at there
      cases there
      exact proper
    · refine sim.proper a o ?_
      rw [made] at there
      simpa [Heap.put,same] using there
  · intro a beyond
    have beyond' : s.allocations + 1 < a := by rw [made] at beyond; exact beyond
    obtain ⟨context,rest⟩ := sim.bounded a (by omega)
    rw [made]
    exact ⟨(if_neg (by omega)).trans context,rest⟩
  · intro a isOpen
    rw [show s'.window = s.window by rw [made]] at isOpen
    obtain ⟨w,there,⟨o,held⟩,attempt⟩ := sim.opened a isOpen
    refine ⟨w,by rw [made]; exact there,⟨o,(old (sim.known_bounded held)).trans held⟩,?_⟩
    rw [made]
    exact attempt
  · intro t o there
    rw [made] at there ⊢
    have earlier := sim.owned t o there
    show o.window ≤ s.allocations + 1
    omega
  · rw [made]; exact sim.stored
  · rw [made]; exact sim.kept

theorem firsts_mem {values : List String} : ∀ {value : String}, value ∈ firsts values ↔ value ∈ values := by
  have grows : ∀ values seen : List String, ∀ value,
      value ∈ values.foldl (fun seen value => if value ∈ seen then seen else seen ++ [value]) seen ↔
        value ∈ seen ∨ value ∈ values := by
    intro values
    induction values with
    | nil => simp
    | cons head rest ih =>
      intro seen value
      rw [List.foldl_cons,ih]
      by_cases known : head ∈ seen
      · rw [if_pos known,List.mem_cons]
        constructor
        · rintro (early | late)
          · exact .inl early
          · exact .inr (.inr late)
        · rintro (early | rfl | late)
          · exact .inl early
          · exact .inl known
          · exact .inr late
      · rw [if_neg known,List.mem_append,List.mem_singleton,List.mem_cons,or_assoc]
  intro value
  rw [firsts,grows values [] value]
  simp
theorem hex_nonempty {key : String} (valid : hex key 64 = true) : key ≠ "" := by
  rintro rfl
  exact absurd valid (by decide)

theorem empty_misses (pubkey : String) (holder : Holder) :
    (IndexMap.empty : IndexMap String Holder).get? pubkey = some holder → holder.firstMissAt ≤ maxReading := by
  intro held
  cases held
theorem touched_mediaType (c : ContextObject) (now : Nat) : (c.touched now).mediaType = c.mediaType := by
  unfold ContextObject.touched
  split <;> rfl
theorem ContextObject.Proper.touched (proper : c.Proper) (now : Nat) : (c.touched now).Proper := by
  unfold ContextObject.touched
  split
  · exact ⟨by simp,empty_misses⟩
  · exact ⟨proper.keys,proper.misses⟩
theorem touched_known (c : ContextObject) (a now : Nat) :
    (if NeighbourDiscovery.idle c.activityAt now ||
      c.lastDemandAt.any (fun moment => NeighbourDiscovery.idle moment now) then
      { c.known a with keys := [], lastDemandAt := none, holders := .empty, activityAt := now }
    else { c.known a with activityAt := now }) = (c.touched now).known a := by
  have reset : (NeighbourDiscovery.idle c.activityAt now ||
      c.lastDemandAt.any (fun moment => NeighbourDiscovery.idle moment now)) =
      (decide (now < c.activityAt) || decide (contextIdleMs ≤ now - c.activityAt)
        || c.lastDemandAt.any (fun moment => decide (now < moment) || decide (contextIdleMs ≤ now - moment))) := rfl
  rw [reset,ContextObject.touched]
  split <;> rfl
theorem Simulates.context (sim : Simulates d s) (now : Nat) (mediaType rendition : String) :
    (d.context now mediaType rendition).1 = (s.context now mediaType rendition).1 ∧
      Simulates (d.context now mediaType rendition).2 (s.context now mediaType rendition).2 ∧
      ∀ a, (s.context now mediaType rendition).1 = some a →
        ∃ c, (s.context now mediaType rendition).2.liveContext a = some c := by
  unfold NeighbourDiscovery.context Script.context
  cases MediaType.parse mediaType with
  | none => exact ⟨rfl,sim,by simp⟩
  | some m =>
    have lookup : (d.contexts.get? m).filter (·.rendition = rendition) =
        ((s.contexts.get? m).filter (fun a => (s.contextAt a).any (·.rendition = rendition))).map
          s.contextOf := by
      rw [sim.contexts,IndexMap.get?_mapValues]
      cases there : s.contexts.get? m with
      | none => rfl
      | some a =>
        obtain ⟨c,held,_⟩ := sim.typed m a there
        by_cases same : c.rendition = rendition
        · simp [Option.filter,held,contextOf_some held,ContextObject.known,same]
        · simp [Option.filter,held,contextOf_some held,ContextObject.known,same]
    dsimp only
    rw [lookup]
    cases found : (s.contexts.get? m).filter
        (fun a => (s.contextAt a).any (·.rendition = rendition)) with
    | none =>
      rw [Option.map_none]
      dsimp only
      rw [sim.ids]
      refine ⟨rfl,?_,?_⟩
      · exact sim.newContext ⟨m,rendition,[],none,now,none,.empty⟩ ⟨by simp,empty_misses⟩
      · rintro a ⟨rfl⟩
        exact ⟨⟨m,rendition,[],none,now,none,.empty⟩,by simp [Script.liveContext,Heap.put,IndexMap.get?_insert]⟩
    | some a =>
      obtain ⟨there,_⟩ := Option.filter_eq_some_iff.mp found
      obtain ⟨c,held,rfl⟩ := sim.typed m a there
      have proper := sim.proper a c held
      refine ⟨rfl,?_,?_⟩
      · simp only [Option.map_some,contextOf_some held]
        exact sim.updateContext held (touched_known c a now) (touched_mediaType c now) (proper.touched now)
      · rintro _ ⟨rfl⟩
        refine ⟨c.touched now,Option.filter_eq_some_iff.mpr ⟨?_,?_⟩⟩
        · simp [Script.updateContext,Heap.update,held]
        · rw [touched_mediaType]
          exact decide_eq_true there

theorem Simulates.window_cases (sim : Simulates d s) :
    (s.window = none ∧ d.window = none) ∨ ∃ a w c, s.window = some a ∧ s.windowAt a = some w ∧
      s.contextAt w.context = some c ∧
      d.window = some ⟨a,w.context,c.mediaType,w.createdAt,w.expiresAt,w.attempt.bind s.attemptOf,w.vacant,
        w.victim⟩ := by
  have same := sim.window
  cases held : s.window with
  | none =>
    rw [held] at same
    exact .inl ⟨rfl,same⟩
  | some a =>
    obtain ⟨w,there,⟨c,context⟩,_⟩ := sim.opened a held
    refine .inr ⟨a,w,c,rfl,there,context,?_⟩
    rw [same,held,Option.bind_some,Script.windowOf,there,Option.map_some,contextOf_some context]
    rfl
theorem Simulates.pinned (sim : Simulates d s) (now a : Nat) :
    d.pinned now a = (if s.live now && (s.window.bind s.windowAt).any (·.context = a) then
      (s.windowAttempt.bind s.attemptAt).map (·.key) else none).filter (· ≠ "") := by
  unfold NeighbourDiscovery.pinned Script.windowAttempt
  rw [sim.live]
  rcases sim.window_cases with ⟨gone,gone'⟩ | ⟨b,w,c,isOpen,there,_,isOpen'⟩
  · simp [gone,gone']
  · rw [isOpen']
    simp only [isOpen,there,Option.bind_some,Option.any_some]
    by_cases serves : (s.live now && decide (w.context = a)) = true
    · rw [if_pos serves,if_pos serves]
      cases attempt : w.attempt with
      | none => rfl
      | some t =>
        obtain ⟨w',there',_,attempts⟩ := sim.opened b isOpen
        rw [there] at there'
        cases there'
        obtain ⟨o,held,_,key⟩ := attempts t attempt
        simp [Script.attemptOf,held,Option.filter,key]
    · rw [if_neg serves,if_neg serves]
      rfl
theorem Simulates.demand (sim : Simulates d s) (now : Nat) (mediaType rendition key : String) :
    (d.demand now mediaType rendition key).1 = (s.demand now mediaType rendition key).1 ∧
      Simulates (d.demand now mediaType rendition key).2 (s.demand now mediaType rendition key).2 := by
  obtain ⟨same,sim',live⟩ := sim.context now mediaType rendition
  unfold NeighbourDiscovery.demand Script.demand
  generalize d.context now mediaType rendition = here at same sim' ⊢
  generalize s.context now mediaType rendition = there at same sim' live ⊢
  obtain ⟨made,d'⟩ := here
  obtain ⟨made',s'⟩ := there
  dsimp only at same sim' live ⊢
  subst same
  cases made with
  | none => exact ⟨rfl,sim'⟩
  | some a =>
    dsimp only
    by_cases valid : hex key 64 = true
    · rw [if_pos valid,if_pos valid]
      obtain ⟨c,there⟩ := live a rfl
      have held := liveContext_at there
      refine ⟨rfl,sim'.updateContext held ?_ rfl ⟨?_,(sim'.proper a c held).misses⟩⟩
      · rw [sim'.pinned]
        rfl
      · intro key' member
        rcases List.mem_append.mp (firsts_mem.mp (List.mem_of_mem_take member)) with pinned | rest
        · have := Option.mem_toList.mp pinned
          exact of_decide_eq_true (Option.filter_eq_some_iff.mp this).2
        · rcases List.mem_cons.mp rest with rfl | old
          · exact hex_nonempty valid
          · exact (sim'.proper a c held).keys key' old
    · rw [if_neg valid,if_neg valid]
      exact ⟨rfl,sim'⟩
theorem addMiss_proper {holders : IndexMap String Holder} {now : Nat} (pubkey key : String) (early : now ≤ maxReading)
    (noted : ∀ pubkey holder, holders.get? pubkey = some holder → holder.firstMissAt ≤ maxReading) :
    ∀ pubkey' holder, (addMiss holders now pubkey key).1.get? pubkey' = some holder →
      holder.firstMissAt ≤ maxReading := by
  intro pubkey' holder held
  unfold addMiss at held
  cases entry : holders.get? pubkey with
  | some old =>
    simp only [entry] at held
    split_ifs at held
    · exact noted pubkey' holder held
    · rw [IndexMap.get?_insert] at held
      split_ifs at held
      · cases held
        exact noted pubkey old entry
      · exact noted pubkey' holder held
  | none =>
    simp only [entry,IndexMap.get?_insert] at held
    split_ifs at held
    · cases held
      exact early
    · exact noted pubkey' holder (IndexMap.get?_dropFirst held)
    · exact noted pubkey' holder held
theorem Simulates.holderMiss (sim : Simulates d s) (now : Reading) (context : Option Nat) (pubkey key : String) :
    (d.holderMiss now.ms context pubkey key).1 = (s.holderMiss now.ms context pubkey key).1 ∧
      Simulates (d.holderMiss now.ms context pubkey key).2 (s.holderMiss now.ms context pubkey key).2 := by
  unfold NeighbourDiscovery.holderMiss Script.holderMiss
  by_cases valid : (!hex pubkey 64 || !hex key 64) = true
  · simp only [valid,if_true]
    split
    · exact ⟨rfl,sim⟩
    · exact ⟨rfl,sim⟩
  · simp only [valid,Bool.false_eq_true,if_false]
    cases context with
    | none => exact ⟨rfl,sim⟩
    | some a =>
      simp only [Option.bind_some,sim.liveContext]
      cases live : s.liveContext a with
      | none => exact ⟨rfl,sim⟩
      | some c =>
        have held := liveContext_at live
        have proper := sim.proper a c held
        exact ⟨rfl,sim.updateContext held rfl rfl ⟨proper.keys,addMiss_proper pubkey key now.valid proper.misses⟩⟩
theorem Proper.erased (proper : c.Proper) (pubkey : String) :
    ContextObject.Proper { c with holders := c.holders.erase pubkey } :=
  ⟨proper.keys,fun pubkey' holder held => proper.misses pubkey' holder (IndexMap.get?_retain.mp held).1⟩
theorem Simulates.holderAhead (sim : Simulates d s) (context : Option Nat) (pubkey : String) :
    Simulates (d.holderAhead context pubkey) (s.holderAhead context pubkey) := by
  unfold NeighbourDiscovery.holderAhead Script.holderAhead
  cases context with
  | none => exact sim
  | some a =>
    simp only [Option.bind_some,sim.liveContext]
    cases live : s.liveContext a with
    | none => exact sim
    | some c =>
      have held := liveContext_at live
      exact sim.updateContext held rfl rfl (Proper.erased (sim.proper a c held) pubkey)
theorem Simulates.hint (sim : Simulates d s) (validTicket : String → Bool) (now : Nat) (pubkey : String)
    (keys : List String) (ticket : Option String) :
    Simulates (d.hint validTicket now pubkey keys ticket) (s.hint validTicket now pubkey keys ticket) := by
  unfold NeighbourDiscovery.hint Script.hint
  split_ifs
  · exact ⟨sim.ids,sim.contexts,congrArg (fun m => addCandidate m (hinted validTicket now pubkey keys ticket))
      sim.candidates,sim.counters,sim.window,sim.typed,sim.proper,sim.bounded,sim.opened,sim.owned,sim.stored,sim.kept⟩
  · exact sim
theorem Simulates.verified (sim : Simulates d s) (context : Option Nat) :
    (d.verified context).1 = (s.verified context).1 ∧ Simulates (d.verified context).2 (s.verified context).2 := by
  unfold NeighbourDiscovery.verified Script.verified
  cases context with
  | none => exact ⟨rfl,sim⟩
  | some a =>
    simp only [Option.bind_some,sim.liveContext]
    cases live : s.liveContext a with
    | none => exact ⟨rfl,sim⟩
    | some c =>
      have held := liveContext_at live
      have proper := sim.proper a c held
      refine ⟨rfl,(sim.updateContext held ?_ ?_ ?_).count
        (fun counters => { counters with verified := counters.verified + 1 })⟩
      · rfl
      · rfl
      · exact ⟨proper.keys,proper.misses⟩
theorem Simulates.rearm (sim : Simulates d s) (now a : Nat) (allStale : Bool) :
    (d.rearm now a allStale).1 = (s.rearm now a allStale).1 ∧
      Simulates (d.rearm now a allStale).2 (s.rearm now a allStale).2 := by
  unfold NeighbourDiscovery.rearm Script.rearm
  rw [sim.liveContext,sim.current]
  cases live : s.liveContext a with
  | none => exact ⟨rfl,sim⟩
  | some c =>
    have held := liveContext_at live
    have proper := sim.proper a c held
    simp only [Option.map_some,Option.bind_some,ContextObject.known]
    cases c.spentAt with
    | none => exact ⟨rfl,sim⟩
    | some spentAt =>
      dsimp only
      split_ifs
      · exact ⟨rfl,sim⟩
      · refine ⟨rfl,(sim.updateContext held ?_ ?_ ?_).count
          (fun counters => { counters with rearmed := counters.rearmed + 1 })⟩
        · rfl
        · rfl
        · exact ⟨proper.keys,proper.misses⟩
end
end RelaySwarm.Neighbours
