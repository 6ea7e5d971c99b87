import RelaySwarm.FetchLeaseRuns

/-!
The periods of a lease. While a key has a row no link is told that its lease is
withdrawn; with the end of the row every link is, once. A body that is taken in before
the withdrawal it deferred is due is announced first.
-/
namespace RelaySwarm.FetchLease
open Held State

def withdrawals (key : String) (log : List Broadcast) : List Broadcast := log.filter (·.message = .fetching key 0)
/-- The key has a row. -/
def Rowed (s : State) (key : String) : Prop := (s.steadyFetches.get? key).isSome = true

variable {s : State} {key : String}
theorem withdrawals_silent {log told : List Broadcast}
    (silent : ∀ broadcast ∈ told, broadcast.message ≠ .fetching key 0) :
    withdrawals key (log ++ told) = withdrawals key log := by
  have absent : told.filter (·.message = .fetching key 0) = [] :=
    List.filter_eq_nil_iff.mpr (fun broadcast member => by simpa using silent broadcast member)
  rw [withdrawals,List.filter_append,absent,List.append_nil,withdrawals]
theorem Rests.rowed {phase : Phase} (rests : Rests s key phase) : Rowed s key ↔ phase ≠ .idle := by
  cases phase with
  | idle => simp [Rowed,rests.1]
  | leased due =>
    obtain ⟨serial,id,row,_⟩ := rests
    simp [Rowed,row]
  | deferred due =>
    obtain ⟨serial,id,row,_⟩ := rests
    simp [Rowed,row]

theorem Turn.withdraws {e : Event} {phase phase' : Phase} {told : List Message}
    (turn : Turn s key e phase phase' told) :
    (phase' ≠ .idle ∧ told.filter (· = .fetching key 0) = []) ∨
    (phase ≠ .idle ∧ phase' = .idle ∧ told.filter (· = .fetching key 0) = [.fetching key 0]) := by
  cases turn with
  | claimed phase => cases phase <;> simp [Phase.renewed]
  | renewed | deferred => simp
  | withdrawn | lapsed | refused | announced => simp
theorem withdrawals_told (key : String) (s : State) (log : List Broadcast) (told : List Message) :
    withdrawals key (log ++ told.map (fun message => ⟨s.now,s.links,message⟩)) =
      withdrawals key log ++ (told.filter (· = .fetching key 0)).map (fun message => ⟨s.now,s.links,message⟩) := by
  rw [withdrawals,List.filter_append,withdrawals,List.filter_map]
  rfl
theorem step_withdraws (sound : Sound s) (e : Event) (key : String) :
    (¬ (Rowed s key ∧ ¬ Rowed (s.step e) key) ∧ withdrawals key (s.step e).log = withdrawals key s.log) ∨
    (Rowed s key ∧ ¬ Rowed (s.step e) key ∧
      withdrawals key (s.step e).log = withdrawals key s.log ++ [⟨s.now,s.links,.fetching key 0⟩]) := by
  obtain ⟨phase,rests,still | ⟨phase',told,turns⟩⟩ := (stepped sound e).2 key
  · left
    obtain ⟨told,log,silent⟩ := still.silent
    rw [rests.rowed,still.rests.rowed,log,withdrawals_silent silent]
    exact ⟨fun both => both.2 both.1,rfl⟩
  · rw [rests.rowed,turns.rests.rowed,turns.log,withdrawals_told]
    rcases turns.turn.withdraws with ⟨live,absent⟩ | ⟨live,ends,once⟩
    · left
      rw [absent]
      exact ⟨fun both => both.2 live,List.append_nil _⟩
    · right
      rw [once]
      exact ⟨live,not_not.mpr ends,rfl⟩
theorem Sound.run (sound : Sound s) (events : List Event) : Sound (s.run events) := by
  induction events using List.reverseRecOn with
  | nil => exact sound
  | append_singleton before e ih =>
    rw [State.run,List.foldl_append]
    exact (stepped ih e).1
theorem run_append (s : State) (before : List Event) (e : Event) : s.run (before ++ [e]) = (s.run before).step e := by
  rw [State.run,List.foldl_append]
  rfl
theorem rowed_silent (sound : Sound s) (events : List Event) (key : String)
    (rowed : ∀ front, front <+: events → Rowed (s.run front) key) :
    withdrawals key (s.run events).log = withdrawals key s.log := by
  induction events using List.reverseRecOn with
  | nil => rfl
  | append_singleton before e ih =>
    have earlier := ih (fun front first => rowed front (first.trans (List.prefix_append _ _)))
    have behind := rowed (before ++ [e]) (List.prefix_refl _)
    rw [run_append] at behind ⊢
    rcases step_withdraws (sound.run before) e key with ⟨_,same⟩ | ⟨_,gone,_⟩
    · exact same.trans earlier
    · exact absurd behind gone

/-- An event that neither claims a key nor takes a body in for it. -/
def Event.aside (key : String) : Event → Prop
  | .claim other _ => other ≠ key
  | .hold other _ _ _ _ _ => other ≠ key
  | _ => True
theorem step_deferred (sound : Sound s) {due : Nat} (rests : Rests s key (.deferred due)) {e : Event}
    (aside : e.aside key) (early : s.now < due) : Rests (s.step e) key (.deferred due) := by
  obtain ⟨phase,own,still | ⟨phase',told,turns⟩⟩ := (stepped sound e).2 key
  · rw [own.unique rests] at still
    exact still.rests
  · have waits := own.unique rests
    rw [waits] at turns
    cases turns.turn with
    | claimed => exact absurd rfl aside
    | lapsed id passed => omega
    | refused | announced => exact absurd rfl aside

/-! ### The clock -/

theorem clearTimer_now (s : State) (timer : Option Nat) : (s.clearTimer timer).now = s.now := by
  cases timer <;> rfl
theorem flushRow_now (s : State) (key : String) (row : Row) : (s.flushRow key row).now = s.now := by
  rw [flushRow]
  split
  · rfl
  · dsimp only
    split <;> exact clearTimer_now s row.withdraw
theorem flush_now (s : State) (key : String) : (s.flushFetchWithdrawal key).now = s.now := by
  rw [flushFetchWithdrawal]
  split
  · rfl
  · exact flushRow_now s key _
theorem renewFetch_now (s : State) (key : String) : (s.renewFetch key).now = s.now := by
  rw [renewFetch]
  cases s.steadyFetches.get? key with
  | none => rfl
  | some row =>
    dsimp only
    split <;> exact clearTimer_now s row.withdraw
theorem withdrawFetch_now (s : State) (key : String) (announce : Bool) :
    (s.withdrawFetch key announce).now = s.now := by
  rw [withdrawFetch]
  split
  · rfl
  · rename_i row _
    dsimp only
    split
    · exact clearTimer_now s row.renew
    · rw [flushRow_now]
      exact clearTimer_now s row.renew
theorem fire_now (s : State) (id : Nat) : (s.fire id).now = s.now := by
  rw [fire]
  split
  · rfl
  split
  · rfl
  dsimp only
  split
  · rfl
  split
  · split
    · rfl
    · split <;> rfl
  · split
    · rfl
    · exact flushRow_now _ _ _
theorem step_now (s : State) (e : Event) : s.now ≤ (s.step e).now := by
  have same : (s.step e).now = s.now → s.now ≤ (s.step e).now := fun equal => equal.ge
  cases e with
  | wait ms => exact Nat.le_add_right _ _
  | fire id => exact same (fire_now s id)
  | claim key allowed =>
    refine same ?_
    rw [State.step,claimOrigin]
    split
    · rfl
    · exact renewFetch_now _ key
  | release index announce =>
    refine same ?_
    rw [State.step,release]
    split
    · rfl
    split
    · rfl
    refine (apply_ite State.now _ _ _).trans ?_
    rw [withdrawFetch_now,ite_self]
  | hold key size reservation pinned allowed still =>
    refine same ?_
    rw [State.step,State.hold]
    split
    · exact flush_now s key
    dsimp only
    split <;> exact flush_now _ key
  | dropHeld key =>
    refine same ?_
    rw [State.step,State.dropHeld]
    split <;> rfl
  | trimHeld limit pinned =>
    refine same ?_
    rw [State.step,State.trimHeld]
    split <;> rfl
  | withdrawHeld | linkOpened | linkClosed => exact le_rfl
theorem run_deferred (sound : Sound s) {due : Nat} (rests : Rests s key (.deferred due)) (events : List Event)
    (aside : ∀ e ∈ events, e.aside key)
    (early : (s.run events).now < due) : Rests (s.run events) key (.deferred due) := by
  induction events using List.reverseRecOn with
  | nil => exact rests
  | append_singleton before e ih =>
    rw [run_append] at early ⊢
    have before' : (s.run before).now < due := (step_now _ e).trans_lt early
    exact step_deferred (sound.run before)
      (ih (fun other member => aside other (List.mem_append_left _ member)) before')
      (aside e (List.mem_append_right _ (List.mem_singleton_self e))) before'
theorem run_front (s : State) {front events : List Event} (first : front <+: events) :
    (s.run front).now ≤ (s.run events).now := by
  obtain ⟨rest,rfl⟩ := first
  induction rest using List.reverseRecOn with
  | nil => rw [List.append_nil]
  | append_singleton before e ih =>
    rw [← List.append_assoc,run_append]
    exact ih.trans (step_now _ e)

/-! ### Leases -/

/-- A lease is due a second after every link was told of it. -/
def Announced (s : State) : Prop := ∀ key due, Rests s key (.leased due) →
  ∃ broadcast ∈ s.log, broadcast.message = .fetching key 2000 ∧ due = broadcast.time + 1000
theorem step_announced (sound : Sound s) (announced : Announced s) (e : Event) : Announced (s.step e) := by
  intro key due rests
  obtain ⟨phase,own,still | ⟨phase',told,turns⟩⟩ := (stepped sound e).2 key
  · rw [still.rests.unique rests] at own
    obtain ⟨broadcast,member,message,dated⟩ := announced key due own
    obtain ⟨told,log,_⟩ := still.silent
    rw [log]
    exact ⟨broadcast,List.mem_append_left _ member,message,dated⟩
  · rw [turns.log]
    have ends := turns.rests.unique rests
    cases turns.turn with
    | claimed phase =>
      cases phase with
      | leased before =>
        cases ends
        obtain ⟨broadcast,member,message,dated⟩ := announced key due own
        exact ⟨broadcast,List.mem_append_left _ member,message,dated⟩
      | idle | deferred =>
        cases ends
        exact ⟨_,List.mem_append_right _ (List.mem_singleton_self _),rfl,rfl⟩
    | renewed =>
      cases ends
      exact ⟨_,List.mem_append_right _ (List.mem_singleton_self _),rfl,rfl⟩
    | deferred | withdrawn | lapsed | refused | announced => cases ends
theorem run_announced (options : Options) (events : List Event) : Announced ((State.start options).run events) := by
  induction events using List.reverseRecOn with
  | nil =>
    intro key due rests
    obtain ⟨_,_,row,_⟩ := rests
    cases row
  | append_singleton before e ih =>
    rw [run_append]
    exact step_announced (run_sound options before) ih e
theorem lease_renewed (sound : Sound s) {due : Nat} (rests : Rests s key (.leased due)) (late : due ≤ s.now) :
    ∃ id, (s.step (.fire id)).log = s.log ++ [⟨s.now,s.links,.fetching key 2000⟩] ∧
      Rests (s.step (.fire id)) key (.leased (s.now + 1000)) := by
  have leased := rests
  obtain ⟨serial,id,row,armed'⟩ := rests
  have own : ⟨id,due,.renew key serial⟩ ∈ armed s key := by rw [armed']; exact List.mem_singleton_self _
  rcases fire_moves sound (sound.clocked.find own) late with ⟨_,touches,behind⟩ | ⟨waits,_,_⟩
  · exact ⟨id,touches.log,behind⟩
  · exact nomatch waits.unique leased

/-! ### Whole runs -/

theorem release_defers (sound : Sound s) {index : Nat} (found : s.claims[index]? = some ⟨key,true,false⟩)
    (last : outstanding s key = 1) (unheld : s.held.contains key = false) :
    Rests (s.step (.release index true)) key (.deferred (s.now + 1000)) ∧
      (s.step (.release index true)).log = s.log := by
  obtain ⟨c,releasing⟩ : ∃ c : State, c = { s with
    claims := s.claims.set index ⟨key,true,true⟩,originFetches := s.originFetches.erase key } := ⟨_,rfl⟩
  have counted : s.originFetches.get? key = some 1 := by rw [sound.counted key,last]; rfl
  have same : s.step (.release index true) = c.withdrawFetch key true := by
    rw [State.step,release,found,releasing]
    simp [counted]
  obtain ⟨phase,rests,leases⟩ := sound.phase key
  obtain ⟨due,rfl⟩ := leases_leased (leases.mpr (by omega))
  have rest : Rests c key (.leased due) := by
    rw [releasing]
    exact rests.same rfl rfl
  have free : c.originFetches.contains key = false := by
    rw [releasing,IndexMap.contains]
    dsimp only
    rw [get?_erase,if_pos rfl]
    rfl
  have clocked : Clocked c := by
    rw [releasing]
    exact sound.clocked.same rfl rfl
  rw [same]
  rcases withdraw_moves clocked free rest true with ⟨_,_,touches,behind⟩ | ⟨bare,_,_⟩
  · have now : c.now = s.now := by rw [releasing]
    have log : c.log = s.log := by rw [releasing]
    rw [now] at behind
    refine ⟨behind,?_⟩
    rw [touches.log,log]
    exact List.append_nil _
  · refine absurd ⟨rfl,?_⟩ bare
    rw [releasing]
    exact unheld
theorem flushRow_gone (s : State) (key : String) {row : Row} (bare : row.renew = none) :
    (s.flushRow key row).steadyFetches.get? key = none := by
  rw [flushRow,if_neg (by rw [bare]; simp)]
  dsimp only
  split <;> exact (get?_erase _ _ _).trans (if_pos rfl)
theorem hold_announces (sound : Sound s) {due : Nat} (rests : Rests s key (.deferred due)) {size reservation : Nat}
    {pinned : String → Bool} {allowed : Bool} (taken : s.declines key size allowed = false) :
    (s.step (.hold key size reservation pinned allowed true)).log = s.log ++
      [⟨s.now,s.links,.haveChange (if (s.taking key size reservation pinned).held.contains key then [key] else [])
        (s.taking key size reservation pinned).evicted⟩,⟨s.now,s.links,.fetching key 0⟩] := by
  obtain ⟨phase,own,still | ⟨phase',told,turns⟩⟩ :=
    (stepped sound (.hold key size reservation pinned allowed true)).2 key
  · -- The withdrawal that waited does not wait any longer.
    rw [own.unique rests] at still
    exfalso
    obtain ⟨serial,id,row,_⟩ := rests
    have ends : ((s.step (.hold key size reservation pinned allowed true)).steadyFetches.get? key) = none := by
      rw [State.step,State.hold,if_neg (by rw [taken]; simp)]
      dsimp only
      rw [if_neg (by simp),flushFetchWithdrawal]
      have row' : (({ s with
          held := (s.taking key size reservation pinned).held,heldBytes :=
            (s.taking key size reservation pinned).bytes } : State).tell
            (.haveChange (if (s.taking key size reservation pinned).held.contains key then [key] else [])
              (s.taking key size reservation
                pinned).evicted)).steadyFetches.get? key = some ⟨serial,none,some id⟩ := row
      rw [row']
      exact flushRow_gone _ key rfl
    obtain ⟨_,_,row',_⟩ := still.rests
    rw [ends] at row'
    cases row'
  · have waits := own.unique rests
    rw [waits] at turns
    rw [turns.log]
    cases turns.turn with
    | refused due size reservation pinned allowed still unannounced =>
      rcases unannounced with declined | unsaid
      · rw [taken] at declined
        cases declined
      · cases unsaid
    | announced => rfl

/-- What holds of the leases of a swarm, whatever comes next. -/
structure Consistent (s : State) : Prop where
  /-- A claimed key has a row whose renewal is armed and no withdrawal; any other has none,
      or one with a withdrawal that waits. -/
  rows : ∀ key, (0 < outstanding s key → ∃ due, Rests s key (.leased due)) ∧
    (outstanding s key = 0 → Rests s key .idle ∨ ∃ due, Rests s key (.deferred due))
  /-- No link is told of a withdrawal while the key is claimed. -/
  claimed : ∀ e key, withdrawals key (s.step e).log ≠ withdrawals key s.log → outstanding (s.step e) key = 0
  /-- None is told of one that is not the end of a row. -/
  outside : ∀ e key, ¬ Rowed s key → withdrawals key (s.step e).log = withdrawals key s.log
  /-- The end of a row is one withdrawal, to every link there is. -/
  ended : ∀ key events e, (∀ front, front <+: events → Rowed (s.run front) key) → ¬ Rowed (s.run (events ++ [e])) key →
    withdrawals key (s.run (events ++ [e])).log =
      withdrawals key s.log ++ [⟨(s.run events).now,(s.run events).links,.fetching key 0⟩]
  /-- A body that the last release announced, and that is taken in within a second, is
      announced before the withdrawal. -/
  behind : ∀ key index events size reservation pinned allowed, s.claims[index]? = some ⟨key,true,false⟩ →
    outstanding s key = 1 →
    s.held.contains key = false → (∀ e ∈ events, Event.aside key e) →
    ((s.step (.release index true)).run events).now < s.now + 1000 →
    ((s.step (.release index true)).run events).declines key size allowed = false →
    let t := (s.step (.release index true)).run events
    withdrawals key t.log = withdrawals key s.log ∧
    (t.step (.hold key size reservation pinned allowed true)).log = t.log ++
      [⟨t.now,t.links,.haveChange (if (t.taking key size reservation pinned).held.contains key then [key] else [])
        (t.taking key size reservation pinned).evicted⟩,⟨t.now,t.links,.fetching key 0⟩]
  /-- The renewal of a lease is due a second after the lease was announced. -/
  announced : ∀ key due, Rests s key (.leased due) → ∃ broadcast ∈ s.log, broadcast.message = .fetching key 2000 ∧
    due = broadcast.time + 1000
  /-- When it is due the lease is announced to every link, for a second more. -/
  renewed : ∀ key due, Rests s key (.leased due) → due ≤ s.now → ∃ id,
    (s.step (.fire id)).log = s.log ++ [⟨s.now,s.links,.fetching key 2000⟩] ∧
    Rests (s.step (.fire id)) key (.leased (s.now + 1000))

theorem Sound.unrowed (sound : Sound s) {key : String} (unrowed : ¬ Rowed s key) : outstanding s key = 0 := by
  obtain ⟨phase,rests,leases⟩ := sound.phase key
  have idle : phase = .idle := by
    by_contra live
    exact unrowed (rests.rowed.mpr live)
  rw [idle] at leases
  by_contra filled
  exact leases.mpr (Nat.pos_of_ne_zero filled)

/-- In every state of every run of a swarm that is not stopped the leases are announced and
    withdrawn consistently. -/
theorem leases_consistent (options : Options) (events : List Event) :
    Consistent ((State.start options).run events) := by
  have sound := run_sound options events
  generalize reached : (State.start options).run events = s at sound
  constructor
  · intro key
    obtain ⟨phase,rests,leases⟩ := sound.phase key
    constructor
    · intro claimed
      obtain ⟨due,rfl⟩ := leases_leased (leases.mpr claimed)
      exact ⟨due,rests⟩
    · intro free
      cases phase with
      | idle => exact .inl rests
      | deferred due => exact .inr ⟨due,rests⟩
      | leased due => exact absurd (leases.mp trivial) (by omega)
  · intro e key told
    rcases step_withdraws sound e key with ⟨_,same⟩ | ⟨_,gone,_⟩
    · exact absurd same told
    · exact (stepped sound e).1.unrowed gone
  · intro e key unrowed
    rcases step_withdraws sound e key with ⟨_,same⟩ | ⟨rowed,_,_⟩
    · exact same
    · exact absurd rowed unrowed
  · intro key events e rowed gone
    rw [run_append] at gone ⊢
    have silent := rowed_silent sound events key rowed
    rcases step_withdraws (sound.run events) e key with ⟨lasts,_⟩ | ⟨_,_,once⟩
    · exact absurd ⟨rowed events (List.prefix_refl _),gone⟩ lasts
    · rw [once,silent]
  · intro key index events size reservation pinned allowed found last unheld aside early taken
    obtain ⟨waits,log⟩ := release_defers sound found last unheld
    have released := (stepped sound (.release index true)).1
    constructor
    · have rowed : ∀ front, front <+: events → Rowed ((s.step (.release index true)).run front) key := by
        intro front first
        have there := run_deferred released waits front (fun e member => aside e (first.subset member))
            ((run_front _ first).trans_lt early)
        exact there.rowed.mpr (by simp)
      rw [rowed_silent released events key rowed,log]
    · exact hold_announces (released.run events) (run_deferred released waits events aside early) taken
  · rw [← reached]
    exact run_announced options events
  · exact fun key due rests late => lease_renewed sound rests late
end RelaySwarm.FetchLease
