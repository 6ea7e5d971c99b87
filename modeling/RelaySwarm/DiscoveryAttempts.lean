import RelaySwarm.DiscoveryWindows

/-!
Attempts in the replacement window. The stored attempts of the one implementation are
those of the open window in the heap of the other; an attempt of an earlier window is
still written through its references there, where nothing reads it again.
-/
namespace RelaySwarm.Neighbours
open RelaySwarm.Script

variable {a : Nat} {w : WindowObject} {c : ContextObject}
section
variable {d : NeighbourDiscovery} {s : Script}

/-! ### Changes of the window -/

theorem windowOf_some (there : s.windowAt a = some w)
    (held : s.contextAt w.context = some c) : s.windowOf a =
      some ⟨a,w.context,c.mediaType,w.createdAt,w.expiresAt,w.attempt.bind s.attemptOf,w.vacant,w.victim⟩ := by
  rw [Script.windowOf,there,Option.map_some,contextOf_some held]
  rfl
theorem updateWindow_at (there : s.windowAt a = some w) (g : WindowObject → WindowObject) :
    (s.updateWindow a g).windowAt a = some (g w) := by
  simp [Script.updateWindow,Heap.update,there]
theorem Simulates.updateWindow (sim : Simulates d s)
    (isOpen : s.window = some a) (there : s.windowAt a = some w) (held : s.contextAt w.context = some c)
    {g : WindowObject → WindowObject} (context : (g w).context = w.context)
    (attempt : ∀ t, (g w).attempt = some t → w.attempt = some t) :
    Simulates { d with window := some ⟨a,w.context,c.mediaType,(g w).createdAt,(g w).expiresAt,
      (g w).attempt.bind s.attemptOf,(g w).vacant,(g w).victim⟩ } (s.updateWindow a g) := by
  have written := updateWindow_at there g
  refine ⟨sim.ids,sim.contexts,sim.candidates,sim.counters,?_,sim.typed,sim.proper,?_,?_,sim.owned,sim.stored,sim.kept⟩
  · show _ = s.window.bind (s.updateWindow a g).windowOf
    rw [isOpen,Option.bind_some,windowOf_some written (context.symm ▸ held),context]
    rfl
  · intro b beyond
    obtain ⟨noContext,noWindow,noAttempt⟩ := sim.bounded b beyond
    refine ⟨noContext,?_,noAttempt⟩
    simp only [Script.updateWindow,Heap.update,noWindow,Option.map_none,ite_self]
  · intro b isOpen'
    rw [show (s.updateWindow a g).window = s.window from rfl,isOpen] at isOpen'
    cases isOpen'
    obtain ⟨w',there',_,attempts⟩ := sim.opened a isOpen
    rw [there] at there'
    cases there'
    exact ⟨g w,written,⟨c,context.symm ▸ held⟩,fun t started => attempts t (attempt t started)⟩
theorem Simulates.updateClosed (sim : Simulates d s) (closed : s.window ≠ some a) (g : WindowObject → WindowObject) :
    Simulates d (s.updateWindow a g) := by
  have others {b : Nat} (isOpen : s.window = some b) : (s.updateWindow a g).windowAt b = s.windowAt b :=
    if_neg (fun same : b = a => closed (same ▸ isOpen))
  refine ⟨sim.ids,sim.contexts,sim.candidates,sim.counters,?_,sim.typed,sim.proper,?_,?_,sim.owned,sim.stored,sim.kept⟩
  · show d.window = s.window.bind (s.updateWindow a g).windowOf
    rw [sim.window]
    cases isOpen : s.window with
    | none => rfl
    | some b => exact (windowOf_congr (others isOpen) (fun _ _ => rfl) (fun _ _ _ _ => rfl)).symm
  · intro b beyond
    obtain ⟨noContext,noWindow,noAttempt⟩ := sim.bounded b beyond
    refine ⟨noContext,?_,noAttempt⟩
    simp only [Script.updateWindow,Heap.update,noWindow,Option.map_none,ite_self]
  · intro b isOpen
    obtain ⟨w,there,rest⟩ := sim.opened b isOpen
    exact ⟨w,(others isOpen).trans there,rest⟩
theorem Simulates.end' (sim : Simulates d s) : d.end'.1 = s.end'.1 ∧ Simulates d.end'.2 s.end'.2 := by
  refine ⟨sim.windowAt,sim.ids,sim.contexts,sim.candidates,sim.counters,rfl,sim.typed,sim.proper,sim.bounded,?_,
    sim.owned,?_,?_⟩
  · rintro a ⟨⟩
  · rintro t stored ⟨⟩
  · rintro t o _ ⟨⟩
theorem Simulates.clear (sim : Simulates d s) : Simulates d.clear s.clear := by
  refine ⟨sim.ids,rfl,rfl,sim.counters,rfl,?_,sim.proper,sim.bounded,?_,sim.owned,?_,?_⟩
  · rintro m a ⟨⟩
  · rintro a ⟨⟩
  · rintro t stored ⟨⟩
  · rintro t o _ ⟨⟩

/-! ### The attempt of the window -/

theorem Simulates.windowAttempt (sim : Simulates d s) (isOpen : s.window = some a)
    (there : s.windowAt a = some w) {v : Window} (same : d.window = some v) (t : Nat) :
    d.windowAttempt t = if w.attempt = some t then (s.attemptOf t).map (fun attempt => (v,attempt)) else none := by
  obtain ⟨w',there',⟨c,held⟩,attempts⟩ := sim.opened a isOpen
  rw [there] at there'
  cases there'
  have attempt : v.attempt = w.attempt.bind s.attemptOf := by
    have seen := sim.window
    rw [isOpen,Option.bind_some,windowOf_some there held,same] at seen
    cases seen
    rfl
  simp only [NeighbourDiscovery.windowAttempt,same,attempt]
  cases started : w.attempt with
  | none => rfl
  | some u =>
    obtain ⟨o,stored,_⟩ := attempts u started
    by_cases named : u = t
    · subst named
      simp [Script.attemptOf,stored,Option.filter]
    · simp [Script.attemptOf,stored,Option.filter,named]
theorem live_open {now a : Nat} (isOpen : s.window = some a) : s.live now = s.liveWindow now a := by
  rw [Script.live,isOpen,Option.any_some]
theorem Simulates.valid (sim : Simulates d s) (now t : Nat) : d.valid now t = s.valid now t := by
  unfold NeighbourDiscovery.valid Script.valid
  rcases sim.window_cases with ⟨gone,gone'⟩ | ⟨a,w,c,isOpen,there,_,isOpen'⟩
  · have closed (b : Nat) : s.liveWindow now b = false := by simp [Script.liveWindow,gone]
    simp only [NeighbourDiscovery.windowAttempt,gone',closed]
    cases s.attemptAt t with
    | none => rfl
    | some o =>
      dsimp only
      split <;> simp
  · rw [sim.windowAttempt isOpen there isOpen']
    by_cases named : w.attempt = some t
    · obtain ⟨w',there',_,attempts⟩ := sim.opened a isOpen
      rw [there] at there'
      cases there'
      obtain ⟨o,stored,owner,_⟩ := attempts t named
      subst owner
      simp only [named,if_true,Script.attemptOf,stored,Option.map_some,sim.candidates,there,sim.live,sim.current,
        live_open isOpen]
      cases s.candidates.get? o.pubkey with
      | none => rfl
      | some candidate => simp [named]
    · rw [if_neg named]
      cases stored : s.attemptAt t with
      | none => rfl
      | some o =>
        dsimp only
        by_cases owner : o.window = a
        · rw [owner,there]
          cases s.candidates.get? o.pubkey with
          | none => rfl
          | some candidate => simp [named]
        · have closed : s.liveWindow now o.window = false := by
            rw [Script.liveWindow,isOpen]
            simp [Ne.symm owner]
          split <;> simp [closed]
theorem valid_inv {now t : Nat} (valid : s.valid now t = true) : ∃ o w c, s.attemptAt t = some o ∧
    s.window = some o.window ∧ s.windowAt o.window = some w ∧ w.attempt = some t ∧
      s.liveContext w.context = some c := by
  unfold Script.valid at valid
  cases stored : s.attemptAt t with
  | none => simp only [stored] at valid; cases valid
  | some o =>
    simp only [stored] at valid
    split at valid
    next w candidate there held =>
      simp only [Bool.and_eq_true,decide_eq_true_eq] at valid
      obtain ⟨⟨⟨⟨⟨live,named⟩,current⟩,_⟩,_⟩,_⟩ := valid
      obtain ⟨c,some⟩ := Option.isSome_iff_exists.mp (current_live current)
      rw [Script.liveWindow,Bool.and_eq_true] at live
      exact ⟨o,w,c,rfl,of_decide_eq_true live.1,there,named,some⟩
    next => cases valid
theorem Simulates.replaced (sim : Simulates d s) (now t : Nat) (victim : Option String) :
    (d.replaced now t victim).1 = (s.replaced now t victim).1 ∧
      Simulates (d.replaced now t victim).2 (s.replaced now t victim).2 := by
  unfold NeighbourDiscovery.replaced Script.replaced
  rw [sim.valid]
  cases valid : s.valid now t with
  | false => exact ⟨rfl,sim⟩
  | true =>
    obtain ⟨o,w,c,stored,isOpen,there,named,live⟩ := valid_inv valid
    have held := liveContext_at live
    have seen := sim.window
    rw [isOpen,Option.bind_some,windowOf_some there held] at seen
    simp only [Bool.not_true,Bool.false_eq_true,if_false,stored,there,seen]
    rw [sim.spent (by rw [live]; rfl)]
    split_ifs
    · exact ⟨rfl,sim⟩
    · have proper := sim.proper _ c held
      have changed := sim.updateContext held (f := fun context => { context with spent := true, spentAt := some now })
        (g := fun context => { context with spentAt := some now }) rfl rfl ⟨proper.keys,proper.misses⟩
      have held' :
          (s.updateContext w.context (fun context => { context with spentAt := some now })).contextAt w.context =
          some { c with spentAt := some now } := by simp [Script.updateContext,Heap.update,held]
      exact ⟨rfl,(changed.updateWindow (g := fun window => { window with vacant := true, victim := victim })
        isOpen there held'
        rfl (fun _ same => same)).count (fun counters => { counters with replacements := counters.replacements + 1 })⟩
theorem Simulates.abandoned (sim : Simulates d s) (t : Nat) : Simulates (d.abandoned t) (s.abandoned t) := by
  unfold NeighbourDiscovery.abandoned Script.abandoned
  rcases sim.window_cases with ⟨gone,gone'⟩ | ⟨a,w,c,isOpen,there,held,isOpen'⟩
  · simp only [NeighbourDiscovery.windowAttempt,gone,gone',Option.isSome_none,Bool.false_eq_true,if_false]
    exact sim
  · rw [sim.windowAttempt isOpen there isOpen']
    simp only [isOpen]
    by_cases named : w.attempt = some t
    · obtain ⟨w',there',_,attempts⟩ := sim.opened a isOpen
      rw [there] at there'
      cases there'
      obtain ⟨o,stored,_⟩ := attempts t named
      have changed := sim.updateWindow (g := fun window => if window.attempt = some t
          then { window with attempt := none } else window)
        isOpen there held (by simp [named]) (by simp [named])
      simp only [named,if_true,Script.attemptOf,stored,Option.map_some,Option.isSome_some,isOpen',Option.map_some]
        at changed ⊢
      exact changed
    · have changed := sim.updateWindow (g := fun window => if window.attempt = some t
          then { window with attempt := none } else window)
        isOpen there held (by simp [named]) (by simp [named])
      simp only [named,if_false,Option.isSome_none,Bool.false_eq_true] at changed ⊢
      rw [← isOpen'] at changed
      exact changed
theorem Simulates.failed (sim : Simulates d s) (dial : Nat) : Simulates (d.failed dial) (s.failed dial) := by
  unfold NeighbourDiscovery.failed Script.failed Script.windowAttempt
  rcases sim.window_cases with ⟨gone,gone'⟩ | ⟨a,w,c,isOpen,there,held,isOpen'⟩
  · simp only [gone,Option.bind_none,Option.filter_none]
    have same : { d with window := d.window.map (fun window =>
        if window.attempt.any (fun attempt => attempt.dial = some dial) then
          { window with attempt := none, vacant := window.victim.isSome } else window) } = d := by
      rw [gone',Option.map_none,← gone']
    rw [same]
    exact sim
  · obtain ⟨w',there',_,attempts⟩ := sim.opened a isOpen
    rw [there] at there'
    cases there'
    simp only [isOpen,there,Option.bind_some]
    by_cases dialled : (w.attempt.bind s.attemptOf).any (fun attempt => attempt.dial = some dial) = true
    · cases started : w.attempt with
      | none => simp [started] at dialled
      | some t =>
        obtain ⟨o,stored,owner,_⟩ := attempts t started
        have named : o.dial = some dial := by simpa [started,Script.attemptOf,stored] using dialled
        have changed :=
          sim.updateWindow (g := fun window => { window with attempt := none, vacant := window.victim.isSome })
          isOpen there held rfl (fun _ none => by cases none)
        simp only [Option.bind_some,stored,Option.filter,named,decide_true,if_true,owner]
        rw [isOpen',Option.map_some]
        dsimp only
        rw [if_pos dialled]
        exact changed
    · have same : { d with window := d.window.map (fun window =>
          if window.attempt.any (fun attempt => attempt.dial = some dial) then
            { window with attempt := none, vacant := window.victim.isSome } else window) } = d := by
        rw [isOpen',Option.map_some]
        dsimp only
        rw [if_neg dialled,← isOpen']
      have other : (w.attempt.bind s.attemptAt).filter (fun attempt => attempt.dial = some dial) = none := by
        cases started : w.attempt with
        | none => rfl
        | some t =>
          obtain ⟨o,stored,_⟩ := attempts t started
          have differs : ¬ o.dial = some dial := by simpa [started,Script.attemptOf,stored] using dialled
          simp [stored,Option.filter,differs]
      rw [same,other]
      exact sim
theorem Simulates.updateAttempt (sim : Simulates d s) {t : Nat} {o : AttemptObject} (stored : s.attemptAt t = some o)
    {f : AttemptObject → AttemptObject} (owner : (f o).window = o.window) (key : (f o).key = o.key)
    (attempts : IndexMap Nat Attempt)
    (alike : ∀ u, (attempts.get? u).map (·.window) = (d.attempts.get? u).map (·.window)) :
    Simulates { d with attempts := attempts, window := s.window.bind (s.updateAttempt t f).windowOf }
      (s.updateAttempt t f) := by
  have written (u : Nat) : (s.updateAttempt t f).attemptAt u = if u = t then some (f o) else s.attemptAt u := by
    by_cases same : u = t
    · simp [Script.updateAttempt,Heap.update,same,stored]
    · simp [Script.updateAttempt,Heap.update,same]
  have after {u : Nat} {o' : AttemptObject} (there : s.attemptAt u = some o') :
      ∃ o'', (s.updateAttempt t f).attemptAt u = some o'' ∧ o''.window = o'.window ∧ o''.key = o'.key := by
    rw [written]
    split_ifs with same
    · rw [same,stored] at there
      cases there
      exact ⟨f o,rfl,owner,key⟩
    · exact ⟨o',there,rfl,rfl⟩
  have before {u : Nat} {o' : AttemptObject} (there : (s.updateAttempt t f).attemptAt u = some o') :
      ∃ o'', s.attemptAt u = some o'' ∧ o'.window = o''.window := by
    rw [written] at there
    split_ifs at there with same
    · cases there
      exact ⟨o,same ▸ stored,owner⟩
    · exact ⟨o',there,rfl⟩
  refine ⟨sim.ids,sim.contexts,sim.candidates,sim.counters,rfl,sim.typed,sim.proper,?_,?_,?_,?_,?_⟩
  · intro u beyond
    obtain ⟨noContext,noWindow,noAttempt⟩ := sim.bounded u beyond
    refine ⟨noContext,noWindow,?_⟩
    rw [written,if_neg ?_]
    · exact noAttempt
    · rintro rfl
      rw [stored] at noAttempt
      cases noAttempt
  · intro b isOpen
    obtain ⟨w,there,held,attempts⟩ := sim.opened b isOpen
    refine ⟨w,there,held,fun u started => ?_⟩
    obtain ⟨o',here,owner',key'⟩ := attempts u started
    obtain ⟨o'',here',owner'',key''⟩ := after here
    exact ⟨o'',here',owner''.trans owner',key'' ▸ key'⟩
  · intro u o' there
    obtain ⟨o'',here,same⟩ := before there
    exact same ▸ sim.owned u o'' here
  · intro u kept there
    have same := alike u
    rw [there,Option.map_some] at same
    obtain ⟨old,there',window⟩ := Option.map_eq_some_iff.mp same.symm
    obtain ⟨isOpen,o',here,owner'⟩ := sim.stored u old there'
    obtain ⟨o'',here',owner'',_⟩ := after here
    exact ⟨window ▸ isOpen,o'',here',owner''.trans (owner'.trans window)⟩
  · intro u o' there isOpen
    obtain ⟨o'',here,same⟩ := before there
    obtain ⟨old,there'⟩ := sim.kept u o'' here (same ▸ isOpen)
    have alike' := alike u
    rw [there',Option.map_some] at alike'
    obtain ⟨new,there'',_⟩ := Option.map_eq_some_iff.mp alike'
    exact ⟨new,there''⟩
theorem Simulates.allocated (sim : Simulates d s) (t dial : Nat) :
    Simulates (d.allocated t dial) (s.allocated t dial) := by
  unfold NeighbourDiscovery.allocated Script.allocated
  cases here : s.attemptAt t with
  | none =>
    cases stored : d.attempts.get? t with
    | none => exact sim
    | some old =>
      obtain ⟨_,o,there,_⟩ := sim.stored t old stored
      rw [here] at there
      cases there
  | some o =>
    by_cases isOpen : s.window = some o.window
    · obtain ⟨old,stored⟩ := sim.kept t o here isOpen
      have owner : old.window = o.window := by
        obtain ⟨isOpen',_⟩ := sim.stored t old stored
        rw [isOpen] at isOpen'
        exact (Option.some.inj isOpen').symm
      obtain ⟨w,there,⟨c,held⟩,attempts⟩ := sim.opened o.window isOpen
      have seen := sim.window
      rw [isOpen,Option.bind_some,windowOf_some there held] at seen
      have first := sim.updateAttempt here (f := fun attempt => { attempt with dial := some dial }) rfl rfl
        (d.attempts.modify t (fun stored => { stored with dial := some dial })) (fun u => by
          rw [IndexMap.modify,IndexMap.get?_mapValues]
          cases d.attempts.get? u with
          | none => rfl
          | some stored =>
            simp only [Option.map_some]
            split_ifs <;> rfl)
      have second := first.updateWindow (g := fun window => { window with vacant := false }) isOpen there held rfl
        (fun _ same => same)
      have attempt : ((w.attempt.bind s.attemptOf).map (fun attempt =>
          if attempt.id = t then { attempt with dial := some dial } else attempt)) =
          w.attempt.bind (s.updateAttempt t (fun attempt => { attempt with dial := some dial })).attemptOf := by
        cases started : w.attempt with
        | none => rfl
        | some u =>
          obtain ⟨o',here',_⟩ := attempts u started
          by_cases same : u = t
          · simp [Script.attemptOf,Script.updateAttempt,Heap.update,same,same ▸ here']
          · simp [Script.attemptOf,Script.updateAttempt,Heap.update,same,here']
      simp only [stored,seen,Option.map_some,owner,if_true,attempt]
      exact second
    · have closed : d.attempts.get? t = none := by
        cases stored : d.attempts.get? t with
        | none => rfl
        | some old =>
          obtain ⟨isOpen',o',here',owner⟩ := sim.stored t old stored
          rw [here] at here'
          cases here'
          exact absurd (owner ▸ isOpen') isOpen
      have first := sim.updateAttempt here (f := fun attempt => { attempt with dial := some dial }) rfl rfl
        d.attempts (fun _ => rfl)
      have same : s.window.bind (s.updateAttempt t (fun attempt => { attempt with dial := some dial })).windowOf =
          d.window := by
        rw [sim.window]
        cases isOpen' : s.window with
        | none => rfl
        | some b =>
          refine windowOf_congr rfl (fun _ _ => rfl) (fun w u there started => ?_)
          obtain ⟨w',there',_,attempts⟩ := sim.opened b isOpen'
          rw [there] at there'
          cases there'
          obtain ⟨o',here',owner,_⟩ := attempts u started
          refine if_neg (fun same : u = t => ?_)
          rw [same,here] at here'
          cases here'
          exact isOpen (owner ▸ isOpen')
      rw [same] at first
      simp only [closed]
      exact first.updateClosed isOpen _

/-! ### A new window and a new attempt -/

theorem Simulates.window_bounded (sim : Simulates d s) (there : s.windowAt a = some w) :
    a ≤ s.allocations := by
  by_contra beyond
  have none := (sim.bounded a (by omega)).2.1
  rw [none] at there
  cases there
theorem Simulates.newWindow (sim : Simulates d s) (closed : s.window = none) (w : WindowObject)
    (held : s.contextAt w.context = some c) (fresh : w.attempt = none) :
    Simulates { d with nextId := s.allocations + 1, window := some ⟨s.allocations + 1,w.context,c.mediaType,
        w.createdAt,w.expiresAt,none,w.vacant,w.victim⟩ }
      { s with
        windowAt := s.windowAt.put (s.allocations + 1) w, allocations := s.allocations + 1
        window := some (s.allocations + 1) } := by
  refine ⟨rfl,sim.contexts,sim.candidates,sim.counters,?_,sim.typed,sim.proper,?_,?_,?_,?_,?_⟩
  · refine Eq.trans ?_ (Eq.symm (windowOf_some (w := w) (c := c) (if_pos rfl) ?_))
    · rw [fresh]
      rfl
    · exact held
  · intro a beyond
    have beyond' : s.allocations + 1 < a := beyond
    obtain ⟨noContext,noWindow,noAttempt⟩ := sim.bounded a (by omega)
    exact ⟨noContext,(if_neg (by omega)).trans noWindow,noAttempt⟩
  · rintro a ⟨rfl⟩
    exact ⟨w,if_pos rfl,⟨c,held⟩,fun t started => by rw [fresh] at started; cases started⟩
  · intro t o there
    have earlier := sim.owned t o there
    show o.window ≤ s.allocations + 1
    omega
  · intro t stored there
    obtain ⟨isOpen,_⟩ := sim.stored t stored there
    rw [closed] at isOpen
    cases isOpen
  · intro t o there isOpen
    have earlier := sim.owned t o there
    have same : s.allocations + 1 = o.window := Option.some.inj isOpen
    omega
theorem Simulates.newAttempt (sim : Simulates d s)
    (isOpen : s.window = some a) (there : s.windowAt a = some w) (held : s.contextAt w.context = some c)
    (o : AttemptObject) (owner : o.window = a) (key : o.key ≠ "") :
    Simulates { d with
        nextId := s.allocations + 1
        attempts := (d.attempts.retain (fun _ stored => stored.window = a)).insert (s.allocations + 1)
          ⟨s.allocations + 1,o.window,o.pubkey,o.ticket,o.key,o.dial⟩
        window := some ⟨a,w.context,c.mediaType,w.createdAt,w.expiresAt,
          some ⟨s.allocations + 1,o.window,o.pubkey,o.ticket,o.key,o.dial⟩,w.vacant,w.victim⟩ }
      { s.updateWindow a (fun window => { window with attempt := some (s.allocations + 1) }) with
        attemptAt := s.attemptAt.put (s.allocations + 1) o, allocations := s.allocations + 1 } := by
  have written := updateWindow_at there (fun window => { window with attempt := some (s.allocations + 1) })
  have new : s.attemptAt.put (s.allocations + 1) o (s.allocations + 1) = some o := if_pos rfl
  have old {t : Nat} (other : t ≠ s.allocations + 1) : s.attemptAt.put (s.allocations + 1) o t = s.attemptAt t :=
    if_neg other
  have early {t : Nat} {o' : AttemptObject} (here : s.attemptAt t = some o') : t ≠ s.allocations + 1 := fun same => by
    have none := (sim.bounded (s.allocations + 1) (by omega)).2.2
    rw [same,none] at here
    cases here
  refine ⟨rfl,sim.contexts,sim.candidates,sim.counters,?_,sim.typed,sim.proper,?_,?_,?_,?_,?_⟩
  · show _ = Option.bind s.window _
    rw [isOpen,Option.bind_some]
    refine Eq.trans ?_ (Eq.symm (windowOf_some (c := c) written ?_))
    · simp only [Option.bind_some,Script.attemptOf,new,Option.map_some]
    · exact held
  · intro t beyond
    have beyond' : s.allocations + 1 < t := beyond
    obtain ⟨noContext,noWindow,noAttempt⟩ := sim.bounded t (by omega)
    refine ⟨noContext,?_,(old (by omega)).trans noAttempt⟩
    simp only [Script.updateWindow,Heap.update,noWindow,Option.map_none,ite_self]
  · intro b isOpen'
    have same : s.window = some b := isOpen'
    rw [isOpen] at same
    cases same
    refine ⟨_,written,⟨c,held⟩,?_⟩
    rintro t ⟨rfl⟩
    exact ⟨o,new,owner,key⟩
  · intro t o' here
    show o'.window ≤ s.allocations + 1
    by_cases same : t = s.allocations + 1
    · rw [same] at here
      cases new.symm.trans here
      have known := sim.window_bounded there
      omega
    · have earlier := sim.owned t o' ((old same).symm.trans here)
      omega
  · intro t stored here
    rw [IndexMap.get?_insert] at here
    split_ifs at here with same
    · cases here
      exact ⟨isOpen.trans (congrArg some owner.symm),o,same ▸ new,rfl⟩
    · obtain ⟨kept,_⟩ := IndexMap.get?_retain.mp here
      obtain ⟨isOpen',o',there',owner'⟩ := sim.stored t stored kept
      exact ⟨isOpen',o',(old (early there')).trans there',owner'⟩
  · intro t o' here isOpen'
    rw [IndexMap.get?_insert]
    split_ifs with same
    · exact ⟨_,rfl⟩
    · have here' := (old same).symm.trans here
      obtain ⟨stored,kept⟩ := sim.kept t o' here' isOpen'
      obtain ⟨own,_⟩ := sim.stored t stored kept
      have mine : stored.window = a := Option.some.inj (own.symm.trans isOpen)
      exact ⟨stored,IndexMap.get?_retain.mpr ⟨kept,decide_eq_true mine⟩⟩
theorem Simulates.opened' (sim : Simulates d s) (now : Nat) {choice : Choice} (chosen : s.Chosen choice) :
    Simulates (d.opened now (s.found choice)).1 (s.opened now choice).1 ∧
      (s.opened now choice).1.window = some (s.opened now choice).2 ∧
      (d.opened now (s.found choice)).1.window = some (d.opened now (s.found choice)).2 := by
  obtain ⟨⟨c,held⟩,_⟩ := chosen
  unfold NeighbourDiscovery.opened Script.opened
  rcases sim.window_cases with ⟨gone,gone'⟩ | ⟨a,w,c',isOpen,there,_,isOpen'⟩
  · rw [gone,gone']
    have made :=
      sim.newWindow gone ⟨choice.context,now,min (min (now + windowMs) (choice.candidate.hintedAt + candidateFreshMs))
      (((s.contextAt choice.context).bind (·.lastDemandAt)).getD 0 + contextIdleMs),none,false,none⟩ held rfl
    have read : s.contextOf choice.context = c.known choice.context := contextOf_some held
    simp only [Script.found,read,sim.ids]
    simp only [held,Option.bind_some] at made ⊢
    exact ⟨made,trivial,trivial⟩
  · rw [isOpen,isOpen']
    exact ⟨sim,isOpen,isOpen'⟩
theorem Simulates.begin' (sim : Simulates d s) (now : Nat) {choice : Choice} (chosen : s.Chosen choice) :
    (d.begin' now (s.found choice)).1 = (s.begin' now choice).1 ∧
      Simulates (d.begin' now (s.found choice)).2 (s.begin' now choice).2 := by
  obtain ⟨sim',isOpen,isOpen'⟩ := sim.opened' now chosen
  unfold NeighbourDiscovery.begin' Script.begin'
  generalize d.opened now (s.found choice) = here at sim' isOpen' ⊢
  generalize s.opened now choice = there at sim' isOpen ⊢
  obtain ⟨d',v⟩ := here
  obtain ⟨s',a⟩ := there
  dsimp only at sim' isOpen isOpen' ⊢
  obtain ⟨w,there,⟨c,held⟩,attempts⟩ := sim'.opened a isOpen
  have seen := sim'.window
  rw [isOpen,Option.bind_some,windowOf_some there held,isOpen'] at seen
  cases seen
  have attempt : (w.attempt.bind s'.attemptOf).isSome = w.attempt.isSome := by
    cases started : w.attempt with
    | none => rfl
    | some t =>
      obtain ⟨o,stored,_⟩ := attempts t started
      simp [Script.attemptOf,stored]
  have target : (s.found choice).context = choice.context := rfl
  simp only [there,attempt,target]
  split_ifs
  · exact ⟨rfl,sim'⟩
  · have begun :=
      sim'.newAttempt isOpen there held ⟨a,choice.candidate.pubkey,choice.candidate.ticket,choice.key,none⟩ rfl chosen.2
    simp only [sim'.ids]
    exact ⟨trivial,begun.count (fun counters => { counters with checks := counters.checks + 1 })⟩
end
end RelaySwarm.Neighbours
