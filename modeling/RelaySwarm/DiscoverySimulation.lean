import RelaySwarm.DiscoveryScript

/-!
The two implementations of neighbour discovery run alike. The state of the one is read
off the heap of the other (`contextOf`, `windowOf`), an id being the address of the
object it stands for; objects that were replaced stay in the heap and say nothing
about the state. Every call keeps the two together and gives the same answer.
-/
namespace RelaySwarm.Neighbours
open RelaySwarm.Script

/-- The last reading whose deadlines are exact numbers in the script, `2^53 - 1 - 60000`;
    no date is as late. -/
def maxReading : Nat := 9007199254680991
/-- A reading of the clock, in milliseconds. -/
structure Reading where
  ms : Nat
  valid : ms ≤ maxReading

/-! ### The state that a heap stands for -/

/-- A context as its object at an address has it. -/
def ContextObject.known (c : ContextObject) (a : Nat) : Context :=
  ⟨a,c.mediaType,c.rendition,c.keys,c.lastDemandAt,c.activityAt,c.spentAt.isSome,c.spentAt,c.holders⟩
/-- What is kept of a context: its keys are not empty, and misses are noted at readings. -/
structure ContextObject.Proper (c : ContextObject) : Prop where
  keys : ∀ key ∈ c.keys, key ≠ ""
  misses : ∀ pubkey holder, c.holders.get? pubkey = some holder → holder.firstMissAt ≤ maxReading
def Script.contextOf (s : Script) (a : Nat) : Context :=
  ((s.contextAt a).getD ⟨.main,"",[],none,0,none,.empty⟩).known a
def Script.attemptOf (s : Script) (t : Nat) : Option Attempt :=
  (s.attemptAt t).map (fun o => ⟨t,o.window,o.pubkey,o.ticket,o.key,o.dial⟩)
def Script.windowOf (s : Script) (a : Nat) : Option Window :=
  (s.windowAt a).map (fun w => ⟨a,w.context,(s.contextOf w.context).mediaType,w.createdAt,w.expiresAt,
    w.attempt.bind s.attemptOf,w.vacant,w.victim⟩)

/-- One implementation simulates the other: the ids are addresses, and what is
    reachable from the maps and the window is the same. -/
structure Simulates (d : NeighbourDiscovery) (s : Script) : Prop where
  ids : d.nextId = s.allocations
  contexts : d.contexts = s.contexts.mapValues (fun _ => s.contextOf)
  candidates : d.candidates = s.candidates
  counters : d.counters = s.counters
  window : d.window = s.window.bind s.windowOf
  /-- The context of a media type has that type. -/
  typed : ∀ m a, s.contexts.get? m = some a → ∃ c, s.contextAt a = some c ∧ c.mediaType = m
  proper : ∀ a c, s.contextAt a = some c → c.Proper
  /-- Nothing is beyond the last address that was taken. -/
  bounded : ∀ a, s.allocations < a → s.contextAt a = none ∧ s.windowAt a = none ∧ s.attemptAt a = none
  opened : ∀ a, s.window = some a → ∃ w, s.windowAt a = some w ∧ (∃ c, s.contextAt w.context = some c) ∧
    ∀ t, w.attempt = some t → ∃ o, s.attemptAt t = some o ∧ o.window = a ∧ o.key ≠ ""
  owned : ∀ t o, s.attemptAt t = some o → o.window ≤ s.allocations
  /-- The attempts that are stored are those of the open window. -/
  stored : ∀ t stored, d.attempts.get? t = some stored →
    s.window = some stored.window ∧ ∃ o, s.attemptAt t = some o ∧ o.window = stored.window
  kept : ∀ t o, s.attemptAt t = some o → s.window = some o.window → ∃ stored, d.attempts.get? t = some stored

section
variable {d : NeighbourDiscovery} {s : Script}

theorem contextOf_some {a : Nat} {c : ContextObject} (held : s.contextAt a = some c) : s.contextOf a = c.known a := by
  simp [Script.contextOf,held]
theorem contextOf_id (s : Script) (a : Nat) : (s.contextOf a).id = a := rfl
theorem Simulates.values (sim : Simulates d s) : d.contexts.values = s.contexts.values.map s.contextOf := by
  rw [sim.contexts,IndexMap.values_mapValues]
theorem Simulates.live_iff (sim : Simulates d s) {a : Nat} :
    a ∈ s.contexts.values ↔ ∃ c, s.liveContext a = some c := by
  simp only [IndexMap.mem_values,Script.liveContext,Option.filter_eq_some_iff,decide_eq_true_eq]
  constructor
  · rintro ⟨m,there⟩
    obtain ⟨c,held,rfl⟩ := sim.typed m a there
    exact ⟨c,held,there⟩
  · rintro ⟨c,_,there⟩
    exact ⟨c.mediaType,there⟩
theorem liveContext_at {a : Nat} {c : ContextObject} (live : s.liveContext a = some c) : s.contextAt a = some c :=
  (Option.filter_eq_some_iff.mp live).1
theorem Simulates.liveContext (sim : Simulates d s) (a : Nat) :
    d.liveContext a = (s.liveContext a).map (·.known a) := by
  have among : d.liveContext a = (s.contexts.values.find? (fun b => b = a)).map s.contextOf := by
    rw [NeighbourDiscovery.liveContext,sim.values,List.find?_map]
    rfl
  rw [among]
  cases live : s.liveContext a with
  | none =>
    have absent : a ∉ s.contexts.values := fun member => by
      obtain ⟨c,some⟩ := sim.live_iff.mp member
      rw [live] at some
      cases some
    have lacking : s.contexts.values.find? (fun b => b = a) = none := by
      rw [List.find?_eq_none]
      rintro b member same
      exact absent (by simpa using (of_decide_eq_true same ▸ member))
    rw [lacking]
    rfl
  | some c =>
    have member := sim.live_iff.mpr ⟨c,live⟩
    have found : s.contexts.values.find? (fun b => b = a) = some a := by
      cases seen : s.contexts.values.find? (fun b => b = a) with
      | none => exact absurd (List.find?_eq_none.mp seen a member) (by simp)
      | some b =>
        have same : b = a := by simpa using List.find?_some seen
        rw [same]
    rw [found]
    exact congrArg some (contextOf_some (liveContext_at live))

/-! ### Readings of the state -/

theorem idle_eq (since now : Nat) :
    (!NeighbourDiscovery.idle since now) = (decide (since ≤ now) && decide (now - since < contextIdleMs)) := by
  unfold NeighbourDiscovery.idle
  rw [Bool.eq_iff_iff]
  simp only [Bool.not_eq_true',Bool.or_eq_false_iff,decide_eq_false_iff_not,Bool.and_eq_true,decide_eq_true_eq]
  omega
theorem Simulates.current (sim : Simulates d s) (now a : Nat) : d.current now a = s.current now a := by
  unfold NeighbourDiscovery.current Script.current
  rw [sim.liveContext]
  cases s.liveContext a with
  | none => rfl
  | some c =>
    simp only [Option.map_some,Option.any_some,NeighbourDiscovery.currentContext,ContextObject.known,idle_eq]
theorem Simulates.spent (sim : Simulates d s) {a : Nat} (live : (s.liveContext a).isSome) : d.spent a = s.spent a := by
  obtain ⟨c,some⟩ := Option.isSome_iff_exists.mp live
  unfold NeighbourDiscovery.spent Script.spent
  rw [sim.liveContext,some,liveContext_at some]
  rfl
theorem current_live {now a : Nat} (current : s.current now a = true) : (s.liveContext a).isSome := by
  unfold Script.current at current
  cases live : s.liveContext a with
  | none => rw [live] at current; cases current
  | some c => rfl
theorem Simulates.windowAt (sim : Simulates d s) : d.window.isSome = s.window.isSome := by
  rw [sim.window]
  cases held : s.window with
  | none => rfl
  | some a =>
    obtain ⟨w,there,_⟩ := sim.opened a held
    simp [Script.windowOf,there]
theorem Simulates.live (sim : Simulates d s) (now : Nat) : d.live now = s.live now := by
  unfold NeighbourDiscovery.live Script.live Script.liveWindow
  rw [sim.window]
  cases s.window with
  | none => rfl
  | some a =>
    cases there : s.windowAt a with
    | none => simp [Script.windowOf,there]
    | some w => simp [Script.windowOf,there]
theorem Simulates.reserved (sim : Simulates d s) (now : Nat) : d.reserved now = s.reserved now := by
  unfold NeighbourDiscovery.reserved Script.reserved
  rw [sim.live,sim.window]
  cases s.window with
  | none => rfl
  | some a =>
    cases there : s.windowAt a with
    | none => simp [Script.windowOf,there]
    | some w => simp [Script.windowOf,there,sim.current]
theorem Simulates.suppresses (sim : Simulates d s) (now : Nat) (pubkey : String) :
    d.suppresses now pubkey = s.suppresses now pubkey := by
  unfold NeighbourDiscovery.suppresses Script.suppresses
  rw [sim.live,sim.window]
  cases s.window with
  | none => rfl
  | some a =>
    cases there : s.windowAt a with
    | none => simp [Script.windowOf,there]
    | some w => simp [Script.windowOf,there]
theorem signedSince_eq {now since : Nat} (early : now ≤ maxReading) (first : since ≤ maxReading) :
    NeighbourDiscovery.signedSince now since = (now : Int) - since := by
  unfold maxReading at early first
  unfold NeighbourDiscovery.signedSince
  rcases Nat.lt_or_ge now since with below | above
  · have wrapped : (now + 2 ^ 64 - since) % 2 ^ 64 = now + 2 ^ 64 - since := Nat.mod_eq_of_lt (by omega)
    rw [wrapped]
    simp only
    rw [if_neg (by omega)]
    omega
  · have wrapped : (now + 2 ^ 64 - since) % 2 ^ 64 = now - since := by
      rw [show now + 2 ^ 64 - since = now - since + 2 ^ 64 by omega,Nat.add_mod_right,Nat.mod_eq_of_lt (by omega)]
    rw [wrapped]
    simp only
    rw [if_pos (by omega)]
    omega
theorem Simulates.stale (sim : Simulates d s) (now : Reading) (context : Option Nat) (pubkey : String) :
    d.stale now.ms context pubkey = s.stale now.ms context pubkey := by
  unfold NeighbourDiscovery.stale Script.stale
  cases context with
  | none => rfl
  | some a =>
    simp only [Option.bind_some,sim.liveContext]
    cases live : s.liveContext a with
    | none => rfl
    | some c =>
      simp only [Option.map_some,Option.bind_some]
      cases held : c.holders.get? pubkey with
      | none => simp [ContextObject.known,held]
      | some holder =>
        have noted := (sim.proper a c (liveContext_at live)).misses pubkey holder held
        simp only [ContextObject.known,held,signedSince_eq now.valid noted]
theorem Simulates.contextCount (sim : Simulates d s) : d.contexts.length = s.contexts.length := by
  rw [sim.contexts,IndexMap.length_mapValues]
theorem Simulates.snapshot (sim : Simulates d s) (now : Nat) : d.snapshot now = s.snapshot now := by
  have held : ∀ a ∈ s.contexts.values, ∃ c, s.contextAt a = some c := fun a member => by
    obtain ⟨c,live⟩ := sim.live_iff.mp member
    exact ⟨c,liveContext_at live⟩
  have keys : d.contexts.values.map (fun context => context.keys.length) =
      s.contexts.values.map (fun a => ((s.contextAt a).map (·.keys.length)).getD 0) := by
    rw [sim.values,List.map_map]
    refine List.map_congr_left (fun a member => ?_)
    obtain ⟨c,there⟩ := held a member
    simp [contextOf_some there,there,ContextObject.known]
  have spent : (d.contexts.values.filter (·.spent)).length = (s.contexts.values.filter s.spent).length := by
    rw [sim.values,List.filter_map,List.length_map]
    refine congrArg List.length (List.filter_congr (fun a member => ?_))
    obtain ⟨c,there⟩ := held a member
    simp [contextOf_some there,Script.spent,there,ContextObject.known,ContextObject.spent]
  simp only [NeighbourDiscovery.snapshot,Script.snapshot,Snapshot.mk.injEq,keys,spent,sim.candidates,sim.contextCount,
    sim.live,sim.reserved,sim.counters,true_and,and_true]
  rw [sim.window]
  cases s.window with
  | none => rfl
  | some a =>
    cases there : s.windowAt a with
    | none => simp [Script.windowOf,there]
    | some w => simp [Script.windowOf,there]
end

end RelaySwarm.Neighbours
