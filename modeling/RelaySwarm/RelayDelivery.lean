import RelaySwarm.RelayPoolRuns

/-!
What a pool hands on of what its relays send: only what was subscribed to and proved, no
event again before ten thousand others, and nothing once it is closed (`pool_delivers`).
-/
namespace RelaySwarm.RelayPool
variable {F E : Type} (settings : Settings) (terms : Terms F E)

/-- The names of what was handed on; the last ten thousand are remembered. -/
structure Remembers (p : Pool F E) : Prop where
  recent : p.closed = false → ∃ older, p.delivered.map (fun entry => terms.id entry.2) = (older ++ p.seen).map some ∧
    p.seen.length ≤ 10000 ∧ (older ≠ [] → p.seen.length = 10000)
  spaced : ∀ i j a b, i < j → p.delivered[i]? = some a → p.delivered[j]? = some b → terms.id a.2 = terms.id b.2 →
    i + 10000 < j

/-- What a step leaves of what was remembered and handed on, when it hears nothing. -/
def Quiet (p p' : Pool F E) : Prop :=
  p'.delivered = p.delivered ∧ (p'.closed = false → p.closed = false ∧ p'.seen = p.seen)

namespace Pool

theorem redial_quiet (p : Pool F E) (url : String) (attempt : Nat) (random : Random) :
    Quiet p (p.redial settings url attempt random) := by
  unfold redial
  split_ifs <;> exact ⟨rfl,fun isOpen => ⟨isOpen,rfl⟩⟩
theorem refuse_quiet (p : Pool F E) (i : Nat) (random : Random) : Quiet p (p.refuse settings i random) := by
  have still : Quiet p p := ⟨rfl,fun isOpen => ⟨isOpen,rfl⟩⟩
  unfold refuse
  split
  · exact still
  · split_ifs
    · split
      · exact still
      · dsimp only
        split_ifs
        · exact redial_quiet settings _ _ _ _
        · exact still
    · exact still
theorem owes_quiet (random : Nat → Random) (members : List Nat) (p : Pool F E) :
    Quiet p (members.foldl (fun p i => p.owe settings i (random i)) p) := by
  induction members generalizing p with
  | nil => exact ⟨rfl,fun isOpen => ⟨isOpen,rfl⟩⟩
  | cons i rest ih =>
    have one : Quiet p (p.owe settings i (random i)) := by
      have still : Quiet p p := ⟨rfl,fun isOpen => ⟨isOpen,rfl⟩⟩
      unfold owe
      split
      · exact still
      · dsimp only
        split_ifs
        · exact redial_quiet settings _ _ _ _
        · exact still
        · exact still
    obtain ⟨delivered,seen⟩ := ih (p.owe settings i (random i))
    refine ⟨delivered.trans one.1,fun going => ?_⟩
    obtain ⟨owing,same⟩ := seen going
    obtain ⟨before,same'⟩ := one.2 owing
    exact ⟨before,same.trans same'⟩
theorem step_quiet (p : Pool F E) (event : Event F E) (other : ∀ message, event ≠ .message message) :
    Quiet p (p.step settings terms event) := by
  have still : Quiet p p := ⟨rfl,fun isOpen => ⟨isOpen,rfl⟩⟩
  cases event with
  | connect =>
    simp only [step,connect,Sound.connects]
    split_ifs <;> exact still
  | opens i replays =>
    simp only [step,opens]
    split
    · exact still
    · split_ifs <;> exact still
  | fails i random => exact refuse_quiet settings p i random
  | closes i random =>
    simp only [step,closes]
    split
    · exact still
    · split_ifs
      · exact redial_quiet settings _ _ _ _
      · exact still
      · exact refuse_quiet settings p i random
  | settles b random =>
    simp only [step,settles]
    split
    · exact still
    · split_ifs
      · exact still
      · exact owes_quiet settings random _ p
  | redials k =>
    simp only [step,redials]
    split
    · exact still
    · split_ifs <;> exact still
  | message message => exact absurd rfl (other message)
  | subscribe id filter =>
    simp only [step,subscribe]
    split_ifs <;> exact still
  | unsubscribe id =>
    simp only [step,unsubscribe]
    split_ifs <;> exact still
  | publish e =>
    simp only [step,publish]
    split_ifs <;> exact still
  | close => exact ⟨rfl,fun none => by cases none⟩
theorem onMessage_cases (p : Pool F E) (message : Message E) : Quiet p (p.onMessage terms message) ∨
    ∃ id e filter name, message = .event id e ∧ p.closed = false ∧ p.subscriptions.get? id = some filter ∧
      terms.id e = some name ∧
      terms.matchFilter filter e = true ∧ name ∉ p.seen ∧ terms.verifyEvent e = true ∧
      p.onMessage terms message = { p with
        seen := if 10000 < (p.seen ++ [name]).length then (p.seen ++ [name]).tail else p.seen ++ [name]
        delivered := p.delivered ++ [(id,e)] } := by
  have still : Quiet p p := ⟨rfl,fun isOpen => ⟨isOpen,rfl⟩⟩
  by_cases closed : p.closed = true
  · left
    unfold onMessage
    rw [if_pos closed]
    exact still
  cases message with
  | other =>
    left
    unfold onMessage
    rw [if_neg closed]
    exact still
  | ok accepted =>
    left
    unfold onMessage
    rw [if_neg closed]
    dsimp only
    split_ifs <;> exact still
  | event id e =>
    cases subscribed : p.subscriptions.get? id with
    | none =>
      left
      simp only [onMessage,if_neg closed,subscribed]
      exact still
    | some filter =>
      cases named : terms.id e with
      | none =>
        left
        simp only [onMessage,if_neg closed,subscribed,named]
        exact still
      | some name =>
        by_cases heard : terms.matchFilter filter e = true ∧ name ∉ p.seen ∧ terms.verifyEvent e = true
        · refine .inr ⟨id,e,filter,name,rfl,by simpa using closed,subscribed,named,heard.1,heard.2.1,heard.2.2,?_⟩
          simp only [onMessage,if_neg closed,subscribed,named]
          rw [if_pos heard]
        · left
          simp only [onMessage,if_neg closed,subscribed,named]
          rw [if_neg heard]
          exact still

end Pool

theorem remembers_new : Remembers terms (Pool.new : Pool F E) :=
  ⟨fun _ => ⟨[],rfl,Nat.zero_le _,fun none => absurd rfl none⟩,fun i j a b _ none => by simp [Pool.new] at none⟩

namespace Remembers
variable {settings : Settings} {terms : Terms F E} {p : Pool F E}

theorem quiet {p' : Pool F E} (remembers : Remembers terms p) (quiet : Quiet p p') : Remembers terms p' := by
  obtain ⟨delivered,seen⟩ := quiet
  refine ⟨fun isOpen => ?_,?_⟩
  · obtain ⟨isOpen',same⟩ := seen isOpen
    rw [delivered,same]
    exact remembers.recent isOpen'
  · rw [delivered]
    exact remembers.spaced
theorem step (remembers : Remembers terms p) (event : Event F E) : Remembers terms (p.step settings terms event) := by
  by_cases other : ∀ message, event ≠ .message message
  · exact remembers.quiet (p.step_quiet settings terms event other)
  push Not at other
  obtain ⟨message,rfl⟩ := other
  rcases p.onMessage_cases terms message with quiet | ⟨id,e,filter,name,rfl,going,_,named,_,unseen,_,heard⟩
  · exact remembers.quiet quiet
  show Remembers terms (p.onMessage terms (.event id e))
  rw [heard]
  obtain ⟨older,names,few,full⟩ := remembers.recent going
  have length : p.delivered.length = older.length + p.seen.length := by
    have same := congrArg List.length names
    simpa using same
  have names' : (p.delivered ++ [(id,e)]).map (fun entry => terms.id entry.2) =
      (older ++ (p.seen ++ [name])).map some := by
    rw [List.map_append,names,← List.append_assoc,List.map_append,List.map_append]
    simp [named]
  constructor
  · intro _
    by_cases fits : 10000 < (p.seen ++ [name]).length
    · obtain ⟨first,rest,split⟩ := List.exists_cons_of_ne_nil (l := p.seen ++ [name]) (by simp)
      refine ⟨older ++ [first],?_,?_,fun _ => ?_⟩
      · dsimp only
        rw [if_pos fits,names',split]
        simp
      · dsimp only
        rw [if_pos fits,List.length_tail,List.length_append,List.length_singleton]
        omega
      · dsimp only
        rw [if_pos fits,List.length_tail]
        rw [List.length_append,List.length_singleton] at fits ⊢
        omega
    · refine ⟨older,?_,?_,fun present => ?_⟩
      · dsimp only
        rw [if_neg fits]
        exact names'
      · dsimp only
        rw [if_neg fits]
        exact Nat.le_of_not_lt fits
      · have filled := full present
        rw [List.length_append,List.length_singleton] at fits
        omega
  · intro i j a b earlier first second same
    have first' : (p.delivered ++ [(id,e)])[i]? = some a := first
    have second' : (p.delivered ++ [(id,e)])[j]? = some b := second
    by_cases old : j < p.delivered.length
    · rw [List.getElem?_append_left old] at second'
      rw [List.getElem?_append_left (earlier.trans old)] at first'
      exact remembers.spaced i j a b earlier first' second' same
    · have last : j = p.delivered.length := by
        have inside := (List.getElem?_eq_some_iff.mp second').1
        rw [List.length_append,List.length_singleton] at inside
        omega
      subst last
      rw [List.getElem?_append_left earlier] at first'
      rw [List.getElem?_append_right (Nat.le_refl _),Nat.sub_self] at second'
      cases second'
      have there : (older ++ p.seen)[i]? = some name := by
        have here : (p.delivered.map (fun entry => terms.id entry.2))[i]? = some (some name) := by
          rw [List.getElem?_map,first']
          exact congrArg some (same.trans named)
        rw [names,List.getElem?_map] at here
        obtain ⟨found,found',same'⟩ := Option.map_eq_some_iff.mp here
        cases same'
        exact found'
      have among : i < older.length := by
        by_contra later
        rw [List.getElem?_append_right (Nat.le_of_not_lt later)] at there
        exact unseen (List.mem_of_getElem? there)
      have filled := full (List.ne_nil_of_length_pos (Nat.lt_of_le_of_lt (Nat.zero_le _) among))
      omega
theorem run (remembers : Remembers terms p) (events : List (Event F E)) :
    Remembers terms (p.run settings terms events) := by
  induction events generalizing p with
  | nil => exact remembers
  | cons event rest ih => exact ih (remembers.step event)

end Remembers

/-! ### Where it comes from, and that it ends -/

/-- What was handed on came when it was subscribed to, and was proved. -/
def Heard (before : List (Event F E)) (entry : String × E) : Prop :=
  ∃ filter, (Pool.new.run settings terms before).subscriptions.get? entry.1 = some filter ∧
    terms.matchFilter filter entry.2 = true ∧ terms.verifyEvent entry.2 = true

theorem run_heard (events : List (Event F E)) : ∀ entry ∈ (Pool.new.run settings terms events).delivered,
    ∃ before after, events = before ++ .message (.event entry.1 entry.2) :: after ∧
      Heard settings terms before entry := by
  induction events using List.reverseRecOn with
  | nil => exact fun _ none => (nomatch none)
  | append_singleton events event ih =>
    have last : Pool.new.run settings terms (events ++ [event]) =
        (Pool.new.run settings terms events).step settings terms event :=
      List.foldl_append
    have old : ∀ entry ∈ (Pool.new.run settings terms events).delivered, ∃ before after,
        events ++ [event] = before ++ .message (.event entry.1 entry.2) :: after ∧
          Heard settings terms before entry := by
      intro entry member
      obtain ⟨before,after,split,heard⟩ := ih entry member
      exact ⟨before,after ++ [event],by rw [split]; simp,heard⟩
    rw [last]
    by_cases other : ∀ message, event ≠ .message message
    · rw [(Pool.step_quiet settings terms _ event other).1]
      exact old
    push Not at other
    obtain ⟨message,rfl⟩ := other
    intro entry member
    rcases Pool.onMessage_cases terms (Pool.new.run settings terms events) message with
      quiet | ⟨id,e,filter,name,rfl,_,subscribed,_,matched,_,proved,heard⟩
    · have member' : entry ∈ ((Pool.new.run settings terms events).onMessage terms message).delivered := member
      rw [quiet.1] at member'
      exact old entry member'
    · have member' : entry ∈ ((Pool.new.run settings terms events).onMessage terms (.event id e)).delivered := member
      rw [heard] at member'
      rcases List.mem_append.mp member' with before | new
      · exact old entry before
      · rw [List.mem_singleton.mp new]
        exact ⟨events,[],rfl,filter,subscribed,matched,proved⟩

theorem step_closed {p : Pool F E} (closed : p.closed = true) (event : Event F E) :
    (p.step settings terms event).closed = true ∧ (p.step settings terms event).delivered = p.delivered := by
  have stays {p' : Pool F E} (quiet : Quiet p p') : p'.closed = true ∧ p'.delivered = p.delivered := by
    refine ⟨?_,quiet.1⟩
    by_contra isOpen
    exact absurd (closed.symm.trans (quiet.2 (by simpa using isOpen)).1) (by simp)
  by_cases other : ∀ message, event ≠ .message message
  · exact stays (p.step_quiet settings terms event other)
  push Not at other
  obtain ⟨message,rfl⟩ := other
  rcases p.onMessage_cases terms message with quiet | ⟨_,_,_,_,_,going,_⟩
  · exact stays quiet
  · cases closed.symm.trans going
/-- Whatever relays send: each event that is handed on came in under a subscription there was,
    matched its filter and proved its signature; it is not handed on again before ten thousand
    others are; and once the pool is closed none is. -/
theorem pool_delivers (events : List (Event F E)) :
    (∀ entry ∈ (Pool.new.run settings terms events).delivered, ∃ before after,
      events = before ++ .message (.event entry.1 entry.2) :: after ∧ Heard settings terms before entry) ∧
    (∀ i j a b, i < j → (Pool.new.run settings terms events).delivered[i]? = some a →
      (Pool.new.run settings terms events).delivered[j]? = some b → terms.id a.2 = terms.id b.2 → i + 10000 < j) ∧
    (∀ before after, events = before ++ .close :: after →
      (Pool.new.run settings terms events).delivered = (Pool.new.run settings terms before).delivered) := by
  refine ⟨run_heard settings terms events,((remembers_new terms).run events).spaced,?_⟩
  rintro before after rfl
  have silent : ∀ (after : List (Event F E)) (p : Pool F E), p.closed = true →
      (p.run settings terms after).delivered = p.delivered := by
    intro after
    induction after with
    | nil => exact fun p _ => rfl
    | cons event rest ih =>
      intro p closed
      obtain ⟨closed',delivered⟩ := step_closed settings terms closed event
      exact (ih (p.step settings terms event) closed').trans delivered
  have whole : Pool.new.run settings terms (before ++ .close :: after) =
      ((Pool.new.run settings terms before).close).run settings terms after := List.foldl_append
  rw [whole]
  exact silent after _ rfl
/-- A relay that comes back is told of the subscription again, and an event is not heard twice. -/
theorem pool_delivers_again :
    let events : List (Event Nat Nat) :=
      [.connect,.opens 0 [],.subscribe "s" 1,.message (.event "s" 1),.closes 0 ⟨0,by decide⟩,
      .redials 0,.opens 1 [],.message (.event "s" 1),.message (.event "t" 1),.message (.event "s" 2)]
    let pool := Pool.new.run ⟨["wss://relay.example/"],by decide,true,30000,false⟩
      ⟨fun kind e => kind = e,fun _ => true,fun _ => some "e"⟩ events
    pool.delivered = [("s",1)] ∧ ∃ before after, events = before ++ .message (.event "s" 1) :: after := by
  intro events pool
  have told : pool.delivered = [("s",1)] := by decide +kernel
  obtain ⟨before,after,split,_⟩ := (pool_delivers ⟨["wss://relay.example/"],by decide,true,30000,false⟩
    ⟨fun kind e => kind = e,fun _ => true,fun _ => some "e"⟩ events).1 ("s",1) (by rw [told]; simp)
  exact ⟨told,before,after,split⟩

end RelaySwarm.RelayPool
