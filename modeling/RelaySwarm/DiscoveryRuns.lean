import RelaySwarm.DiscoveryAttempts

/-!
Runs of neighbour discovery. Both implementations take the same calls; a handle is an
id in the one and an address in the other, and may name a context or an attempt that
was replaced, or nothing at all.
-/
namespace RelaySwarm.Neighbours

/-- A call, with the reading of the clock where it takes one. -/
inductive Call where
  | context (now : Reading) (mediaType rendition : String)
  | demand (now : Reading) (mediaType rendition key : String)
  | hint (now : Reading) (pubkey : String) (keys : List String) (ticket : Option String)
  | holderMiss (now : Reading) (context : Option Nat) (pubkey key : String)
  | holderAhead (context : Option Nat) (pubkey : String)
  | stale (now : Reading) (context : Option Nat) (pubkey : String)
  | forget (pubkey : String)
  | current (now : Reading) (context : Nat)
  | choose (now : Reading) (eligible : Candidate → Bool) (unmet : MediaType → Bool) (room : Bool)
  /-- `choose`, and `begin` with what it returned. -/
  | seek (now : Reading) (eligible : Candidate → Bool) (unmet : MediaType → Bool) (room : Bool)
  | rearm (now : Reading) (context : Nat) (allStale : Bool)
  | valid (now : Reading) (attempt : Nat)
  | replaced (now : Reading) (attempt : Nat) (victim : Option String)
  | allocated (attempt dial : Nat)
  | abandoned (attempt : Nat)
  | failed (dial : Nat)
  | end'
  | verified (context : Option Nat)
  | live (now : Reading)
  | reserved (now : Reading)
  | suppresses (now : Reading) (pubkey : String)
  | snapshot (now : Reading)
  | clear
inductive Answer where
  | none
  | handle (handle : Option Nat)
  | verdict (verdict : Bool)
  | choice (choice : Option Choice)
  | sought (choice : Option Choice) (attempt : Option Nat)
  | snapshot (snapshot : Snapshot)
deriving DecidableEq
/-- What a state holds: contexts, candidates, the window with its attempt, and counters. -/
structure View where
  contexts : IndexMap MediaType Context
  candidates : IndexMap String Candidate
  window : Option Window
  counters : Counters

def Found.choice (found : Found) : Choice := ⟨found.context,found.candidate,found.key⟩
def NeighbourDiscovery.call (validTicket : String → Bool) (d : NeighbourDiscovery) : Call → Answer × NeighbourDiscovery
  | .context now mediaType rendition => (d.context now.ms mediaType rendition).map .handle id
  | .demand now mediaType rendition key => (d.demand now.ms mediaType rendition key).map .handle id
  | .hint now pubkey keys ticket => (.none,d.hint validTicket now.ms pubkey keys ticket)
  | .holderMiss now context pubkey key => (d.holderMiss now.ms context pubkey key).map .verdict id
  | .holderAhead context pubkey => (.none,d.holderAhead context pubkey)
  | .stale now context pubkey => (.verdict (d.stale now.ms context pubkey),d)
  | .forget pubkey => (.none,d.forget pubkey)
  | .current now context => (.verdict (d.current now.ms context),d)
  | .choose now eligible unmet room =>
    (d.choose now.ms eligible unmet room).map (fun found => .choice (found.map Found.choice)) id
  | .seek now eligible unmet room =>
    match d.choose now.ms eligible unmet room with
    | (none,d) => (.sought none none,d)
    | (some found,d) => (d.begin' now.ms found).map (.sought (some found.choice)) id
  | .rearm now context allStale => (d.rearm now.ms context allStale).map .verdict id
  | .valid now attempt => (.verdict (d.valid now.ms attempt),d)
  | .replaced now attempt victim => (d.replaced now.ms attempt victim).map .verdict id
  | .allocated attempt dial => (.none,d.allocated attempt dial)
  | .abandoned attempt => (.none,d.abandoned attempt)
  | .failed dial => (.none,d.failed dial)
  | .end' => d.end'.map .verdict id
  | .verified context => (d.verified context).map .verdict id
  | .live now => (.verdict (d.live now.ms),d)
  | .reserved now => (.verdict (d.reserved now.ms),d)
  | .suppresses now pubkey => (.verdict (d.suppresses now.ms pubkey),d)
  | .snapshot now => (.snapshot (d.snapshot now.ms),d)
  | .clear => (.none,d.clear)
def Script.call (validTicket : String → Bool) (s : Script) : Call → Answer × Script
  | .context now mediaType rendition => (s.context now.ms mediaType rendition).map .handle id
  | .demand now mediaType rendition key => (s.demand now.ms mediaType rendition key).map .handle id
  | .hint now pubkey keys ticket => (.none,s.hint validTicket now.ms pubkey keys ticket)
  | .holderMiss now context pubkey key => (s.holderMiss now.ms context pubkey key).map .verdict id
  | .holderAhead context pubkey => (.none,s.holderAhead context pubkey)
  | .stale now context pubkey => (.verdict (s.stale now.ms context pubkey),s)
  | .forget pubkey => (.none,s.forget pubkey)
  | .current now context => (.verdict (s.current now.ms context),s)
  | .choose now eligible unmet room => (s.choose now.ms eligible unmet room).map .choice id
  | .seek now eligible unmet room =>
    match s.choose now.ms eligible unmet room with
    | (none,s) => (.sought none none,s)
    | (some choice,s) => (s.begin' now.ms choice).map (.sought (some choice)) id
  | .rearm now context allStale => (s.rearm now.ms context allStale).map .verdict id
  | .valid now attempt => (.verdict (s.valid now.ms attempt),s)
  | .replaced now attempt victim => (s.replaced now.ms attempt victim).map .verdict id
  | .allocated attempt dial => (.none,s.allocated attempt dial)
  | .abandoned attempt => (.none,s.abandoned attempt)
  | .failed dial => (.none,s.failed dial)
  | .end' => s.end'.map .verdict id
  | .verified context => (s.verified context).map .verdict id
  | .live now => (.verdict (s.live now.ms),s)
  | .reserved now => (.verdict (s.reserved now.ms),s)
  | .suppresses now pubkey => (.verdict (s.suppresses now.ms pubkey),s)
  | .snapshot now => (.snapshot (s.snapshot now.ms),s)
  | .clear => (.none,s.clear)
def NeighbourDiscovery.run (validTicket : String → Bool) (d : NeighbourDiscovery) :
    List Call → List Answer × NeighbourDiscovery
  | [] => ([],d)
  | call :: rest =>
    let called := d.call validTicket call
    let later := called.2.run validTicket rest
    (called.1 :: later.1,later.2)
def Script.run (validTicket : String → Bool) (s : Script) : List Call → List Answer × Script
  | [] => ([],s)
  | call :: rest =>
    let called := s.call validTicket call
    let later := called.2.run validTicket rest
    (called.1 :: later.1,later.2)
def NeighbourDiscovery.view (d : NeighbourDiscovery) : View := ⟨d.contexts,d.candidates,d.window,d.counters⟩
/-- The heap is read where the maps and the window lead. -/
def Script.view (s : Script) : View :=
  ⟨s.contexts.mapValues (fun _ => s.contextOf),s.candidates,s.window.bind s.windowOf,s.counters⟩

section
variable {d : NeighbourDiscovery} {s : Script}

theorem Simulates.view (sim : Simulates d s) : d.view = s.view := by
  simp only [NeighbourDiscovery.view,Script.view,sim.contexts,sim.candidates,sim.window,sim.counters]
theorem Simulates.new : Simulates .new .new := by
  refine ⟨rfl,rfl,rfl,rfl,rfl,?_,?_,?_,?_,?_,?_,?_⟩
  · rintro m a ⟨⟩
  · rintro a c ⟨⟩
  · exact fun a _ => ⟨rfl,rfl,rfl⟩
  · rintro a ⟨⟩
  · rintro t o ⟨⟩
  · rintro t stored ⟨⟩
  · rintro t o ⟨⟩
/-- One result: the answers agree, and the states stay together. -/
private theorem mapped {α β : Type} {f : α → Answer} {g : β → Answer} {x : α × NeighbourDiscovery} {y : β × Script}
    (same : f x.1 = g y.1) (sim : Simulates x.2 y.2) :
    (x.map f id).1 = (y.map g id).1 ∧ Simulates (x.map f id).2 (y.map g id).2 := ⟨same,sim⟩
theorem Simulates.seek (sim : Simulates d s) (validTicket : String → Bool) (now : Reading) (eligible : Candidate → Bool)
    (unmet : MediaType → Bool) (room : Bool) :
    (d.call validTicket (.seek now eligible unmet room)).1 = (s.call validTicket (.seek now eligible unmet room)).1 ∧
      Simulates (d.call validTicket (.seek now eligible unmet room)).2
        (s.call validTicket (.seek now eligible unmet room)).2 := by
  obtain ⟨same,sim',chosen,held⟩ := sim.choose now.ms eligible unmet room
  simp only [NeighbourDiscovery.call,Script.call]
  generalize d.choose now.ms eligible unmet room = here at same sim' ⊢
  generalize s.choose now.ms eligible unmet room = there at same sim' chosen held ⊢
  obtain ⟨found,d'⟩ := here
  obtain ⟨choice,s'⟩ := there
  dsimp only at same sim' chosen held ⊢
  subst same
  cases choice with
  | none => exact ⟨rfl,sim'⟩
  | some choice =>
    have known : s'.Chosen choice := by
      obtain ⟨⟨c,there⟩,key⟩ := chosen choice rfl
      exact ⟨⟨c,held ▸ there⟩,key⟩
    have seen : s.found choice = s'.found choice := by simp only [Script.found,Script.contextOf,held]
    simp only [Option.map_some,seen]
    obtain ⟨begun,sim''⟩ := sim'.begin' now.ms known
    exact mapped (congrArg (Answer.sought (some choice)) begun) sim''
theorem Simulates.call (sim : Simulates d s) (validTicket : String → Bool) (call : Call) :
    (d.call validTicket call).1 = (s.call validTicket call).1 ∧
      Simulates (d.call validTicket call).2 (s.call validTicket call).2 := by
  cases call with
  | context now mediaType rendition =>
    obtain ⟨same,sim',_⟩ := sim.context now.ms mediaType rendition
    exact mapped (congrArg Answer.handle same) sim'
  | demand now mediaType rendition key =>
    obtain ⟨same,sim'⟩ := sim.demand now.ms mediaType rendition key
    exact mapped (congrArg Answer.handle same) sim'
  | hint now pubkey keys ticket => exact ⟨rfl,sim.hint validTicket now.ms pubkey keys ticket⟩
  | holderMiss now context pubkey key =>
    obtain ⟨same,sim'⟩ := sim.holderMiss now context pubkey key
    exact mapped (congrArg Answer.verdict same) sim'
  | holderAhead context pubkey => exact ⟨rfl,sim.holderAhead context pubkey⟩
  | stale now context pubkey => exact ⟨congrArg Answer.verdict (sim.stale now context pubkey),sim⟩
  | forget pubkey => exact ⟨rfl,sim.forget pubkey⟩
  | current now context => exact ⟨congrArg Answer.verdict (sim.current now.ms context),sim⟩
  | choose now eligible unmet room =>
    obtain ⟨same,sim',_⟩ := sim.choose now.ms eligible unmet room
    refine mapped (congrArg Answer.choice ?_) sim'
    rw [same,Option.map_map]
    exact congrFun Option.map_id _
  | seek now eligible unmet room => exact sim.seek validTicket now eligible unmet room
  | rearm now context allStale =>
    obtain ⟨same,sim'⟩ := sim.rearm now.ms context allStale
    exact mapped (congrArg Answer.verdict same) sim'
  | valid now attempt => exact ⟨congrArg Answer.verdict (sim.valid now.ms attempt),sim⟩
  | replaced now attempt victim =>
    obtain ⟨same,sim'⟩ := sim.replaced now.ms attempt victim
    exact mapped (congrArg Answer.verdict same) sim'
  | allocated attempt dial => exact ⟨rfl,sim.allocated attempt dial⟩
  | abandoned attempt => exact ⟨rfl,sim.abandoned attempt⟩
  | failed dial => exact ⟨rfl,sim.failed dial⟩
  | end' => exact mapped (congrArg Answer.verdict sim.end'.1) sim.end'.2
  | verified context =>
    obtain ⟨same,sim'⟩ := sim.verified context
    exact mapped (congrArg Answer.verdict same) sim'
  | live now => exact ⟨congrArg Answer.verdict (sim.live now.ms),sim⟩
  | reserved now => exact ⟨congrArg Answer.verdict (sim.reserved now.ms),sim⟩
  | suppresses now pubkey => exact ⟨congrArg Answer.verdict (sim.suppresses now.ms pubkey),sim⟩
  | snapshot now => exact ⟨congrArg Answer.snapshot (sim.snapshot now.ms),sim⟩
  | clear => exact ⟨rfl,sim.clear⟩
theorem Simulates.run (validTicket : String → Bool) (calls : List Call) : ∀ {d : NeighbourDiscovery} {s : Script},
    Simulates d s → (d.run validTicket calls).1 = (s.run validTicket calls).1 ∧
      Simulates (d.run validTicket calls).2 (s.run validTicket calls).2 := by
  induction calls with
  | nil => exact fun sim => ⟨rfl,sim⟩
  | cons call rest ih =>
    intro d s sim
    obtain ⟨same,sim'⟩ := sim.call validTicket call
    obtain ⟨later,sim''⟩ := ih sim'
    exact ⟨congrArg₂ List.cons same later,sim''⟩
end

/-- The two implementations of neighbour discovery cannot be told apart: every sequence
    of calls gets the same answers from both, and leaves the same state. -/
theorem discovery_alike (validTicket : String → Bool) (calls : List Call) :
    (NeighbourDiscovery.new.run validTicket calls).1 = (Script.new.run validTicket calls).1 ∧
      (NeighbourDiscovery.new.run validTicket calls).2.view = (Script.new.run validTicket calls).2.view := by
  obtain ⟨answers,sim⟩ := Simulates.run validTicket calls Simulates.new
  exact ⟨answers,sim.view⟩
end RelaySwarm.Neighbours
