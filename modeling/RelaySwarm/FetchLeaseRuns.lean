import Mathlib.Data.List.Induction
import RelaySwarm.FetchLease

/-!
Origin leases are announced and withdrawn consistently. A key is idle, leased with one
timer that renews it, or deferred with one that withdraws it, and it is leased exactly
while a claim is outstanding (`run_sound`). A lease ends with one withdrawal to every
link, which comes behind the announcement of the body that was waited for.
-/
namespace RelaySwarm.FetchLease
open Held State

/-! ### Phases -/

variable {s : State} {timer : Timer}
def Claim.stands (key : String) (claim : Claim) : Bool := claim.key = key && claim.counted && !claim.released
def outstanding (s : State) (key : String) : Nat := s.claims.countP (Claim.stands key)
def armed (s : State) (key : String) : List Timer := s.timers.filter (·.action.key = key)

/-- What the swarm does about a key, and when its timer is due. -/
inductive Phase where
  | idle
  | leased (due : Nat)
  | deferred (due : Nat)
/-- The row and the timers of a key in a phase. -/
def Rests (s : State) (key : String) : Phase → Prop
  | .idle => s.steadyFetches.get? key = none ∧ armed s key = []
  | .leased due =>
    ∃ serial id, s.steadyFetches.get? key = some ⟨serial,some id,none⟩ ∧ armed s key = [⟨id,due,.renew key serial⟩]
  | .deferred due =>
    ∃ serial id, s.steadyFetches.get? key = some ⟨serial,none,some id⟩ ∧ armed s key = [⟨id,due,.withdraw key serial⟩]
def Phase.leases : Phase → Prop
  | .leased _ => True
  | _ => False

/-- No two timers have one number, and those to come have greater ones. -/
structure Clocked (s : State) : Prop where
  once : (s.timers.map (·.id)).Nodup
  before : ∀ timer ∈ s.timers, timer.id < s.made
/-- What an operation on the leases leaves alone. -/
structure Fixed (s s' : State) : Prop where
  options : s'.options = s.options
  now : s'.now = s.now
  claims : s'.claims = s.claims
  originFetches : s'.originFetches = s.originFetches
  held : s'.held = s.held
  links : s'.links = s.links
theorem Rests.same {s s' : State} {key : String} {phase : Phase} (rests : Rests s key phase)
    (row : s'.steadyFetches.get? key = s.steadyFetches.get? key)
    (timers : armed s' key = armed s key) : Rests s' key phase := by
  cases phase <;> simpa only [Rests,row,timers] using rests
theorem Rests.unique {key : String} {p q : Phase} (first : Rests s key p) (second : Rests s key q) : p = q := by
  cases p <;> cases q <;> simp only [Rests] at first second <;> grind

theorem armed_after (s : State) (ms : Nat) (action : Action) (key : String) :
    armed (s.after ms action) key = armed s key ++ if action.key = key then [⟨s.made,s.now + ms,action⟩] else [] := by
  rw [armed,after,List.filter_append]
  by_cases same : action.key = key <;> simp [armed,same]
theorem armed_own {key : String} (unarmed : armed s key = []) {ms : Nat} {action : Action} (own : action.key = key) :
    armed (s.after ms action) key = [⟨s.made,s.now + ms,action⟩] := by
  rw [armed_after,unarmed,if_pos own,List.nil_append]
theorem armed_without (timers : List Timer) (id : Nat) (key : String) :
    (timers.filter (fun timer => timer.id ≠ id)).filter (fun timer => timer.action.key = key) =
      (timers.filter (fun timer => timer.action.key = key)).filter (fun timer => timer.id ≠ id) := by
  rw [List.filter_filter,List.filter_filter]
  congr 1
  funext timer
  exact Bool.and_comm _ _
theorem Clocked.apart (clocked : Clocked s) {key other : String} (own : timer ∈ armed s key)
    (differs : other ≠ key) : (armed s other).filter (fun t => t.id ≠ timer.id) = armed s other := by
  apply List.filter_eq_self.mpr
  intro t member
  have inside := List.mem_filter.mp member
  have inside' := List.mem_filter.mp own
  have apart : t.id ≠ timer.id := by
    intro same
    have equal := List.inj_on_of_nodup_map clocked.once inside.1 inside'.1 same
    rw [equal] at inside
    exact differs ((of_decide_eq_true inside.2).symm.trans (of_decide_eq_true inside'.2))
  simpa using apart
theorem Clocked.filter {s s' : State} (clocked : Clocked s) (keep : Timer → Bool)
    (timers : s'.timers = s.timers.filter keep) (made : s'.made = s.made) : Clocked s' where
  once := by
    rw [timers]
    exact clocked.once.sublist (List.filter_sublist.map _)
  before timer member := by
    rw [timers] at member
    rw [made]
    exact clocked.before timer (List.mem_filter.mp member).1
theorem Clocked.same {s s' : State} (clocked : Clocked s) (timers : s'.timers = s.timers) (made : s'.made = s.made) :
    Clocked s' := by
  constructor
  · rw [timers]
    exact clocked.once
  · rw [timers,made]
    exact clocked.before
theorem Clocked.after (clocked : Clocked s) (ms : Nat) (action : Action) : Clocked (s.after ms action) where
  once := by
    rw [State.after,List.map_append,List.nodup_append]
    refine ⟨clocked.once,List.nodup_singleton _,?_⟩
    rintro id member _ (_ | _) rfl
    · obtain ⟨timer,inside,same⟩ := List.mem_map.mp member
      exact Nat.ne_of_lt (clocked.before timer inside) same
    · contradiction
  before timer member := by
    rcases List.mem_append.mp member with old | new
    · exact Nat.lt_succ_of_lt (clocked.before timer old)
    · rw [List.mem_singleton.mp new]
      exact Nat.lt_succ_self _
theorem Clocked.setRow (clocked : Clocked s) (key : String) (row : Row) : Clocked (s.setRow key row) :=
  clocked.same rfl rfl

theorem get?_setRow (s : State) (key other : String) (row : Row) :
    (s.setRow key row).steadyFetches.get? other = if other = key then some row else s.steadyFetches.get? other :=
  IndexMap.get?_insert _ _ _ _
theorem get?_erase {α : Type} (m : IndexMap String α) (key other : String) :
    (m.erase key).get? other = if other = key then none else m.get? other := by
  by_cases same : other = key
  · rw [if_pos same]
    cases found : (m.erase key).get? other with
    | none => rfl
    | some a =>
      have apart := (IndexMap.get?_retain.mp found).2
      simp [same] at apart
  · rw [if_neg same]
    apply Option.ext
    intro a
    rw [IndexMap.erase,IndexMap.get?_retain]
    simp [same]

/-! ### Operations on one key -/

/-- An operation on the row and the timers of one key, and what it tells every link. -/
structure Touches (s s' : State) (key : String) (told : List Message) : Prop where
  rows : ∀ other, other ≠ key → s'.steadyFetches.get? other = s.steadyFetches.get? other
  timers : ∀ other, other ≠ key → armed s' other = armed s other
  clocked : Clocked s'
  log : s'.log = s.log ++ told.map (fun message => ⟨s.now,s.links,message⟩)
  fixed : Fixed s s'

variable {s s' s'' : State} {key : String} {told more : List Message}
theorem Touches.trans (first : Touches s s' key told) (second : Touches s' s'' key more) :
    Touches s s'' key (told ++ more) where
  rows other apart := (second.rows other apart).trans (first.rows other apart)
  timers other apart := (second.timers other apart).trans (first.timers other apart)
  clocked := second.clocked
  log := by
    rw [second.log,first.log,first.fixed.now,first.fixed.links,List.map_append,List.append_assoc]
  fixed := ⟨second.fixed.options.trans first.fixed.options,second.fixed.now.trans first.fixed.now,
    second.fixed.claims.trans first.fixed.claims,second.fixed.originFetches.trans first.fixed.originFetches,
    second.fixed.held.trans first.fixed.held,second.fixed.links.trans first.fixed.links⟩
theorem Touches.silent (first : Touches s s' key told) (second : Touches s' s'' key []) : Touches s s'' key told := by
  have both := first.trans second
  rwa [List.append_nil] at both

theorem Touches.after (clocked : Clocked s) (ms : Nat) (action : Action) (own : action.key = key) :
    Touches s (s.after ms action) key [] where
  rows _ _ := rfl
  timers other apart := by
    rw [armed_after,own,if_neg (Ne.symm apart),List.append_nil]
  clocked := clocked.after ms action
  log := (List.append_nil _).symm
  fixed := ⟨rfl,rfl,rfl,rfl,rfl,rfl⟩
variable (key) in
theorem Touches.setRow (clocked : Clocked s) (row : Row) : Touches s (s.setRow key row) key [] where
  rows other apart := by rw [get?_setRow,if_neg apart]
  timers _ _ := rfl
  clocked := clocked.setRow key row
  log := (List.append_nil _).symm
  fixed := ⟨rfl,rfl,rfl,rfl,rfl,rfl⟩
theorem Touches.unarm (timer : Timer) (clocked : Clocked s) (own : timer ∈ armed s key) :
    Touches s { s with timers := s.timers.filter (·.id ≠ timer.id) } key [] where
  rows _ _ := rfl
  timers other apart := by
    rw [armed,armed_without]
    exact clocked.apart own apart
  clocked := clocked.filter _ rfl rfl
  log := (List.append_nil _).symm
  fixed := ⟨rfl,rfl,rfl,rfl,rfl,rfl⟩
variable (key) in
theorem Touches.tell (clocked : Clocked s) (message : Message) : Touches s (s.tell message) key [message] where
  rows _ _ := rfl
  timers _ _ := rfl
  clocked := clocked.same rfl rfl
  log := rfl
  fixed := ⟨rfl,rfl,rfl,rfl,rfl,rfl⟩
theorem Touches.erase (clocked : Clocked s) :
    Touches s { s with steadyFetches := s.steadyFetches.erase key } key [] where
  rows other apart := by rw [get?_erase,if_neg apart]
  timers _ _ := rfl
  clocked := clocked.same rfl rfl
  log := (List.append_nil _).symm
  fixed := ⟨rfl,rfl,rfl,rfl,rfl,rfl⟩
theorem unarm_armed (timer : Timer) (armed' : armed s key = [timer]) :
    armed { s with timers := s.timers.filter (·.id ≠ timer.id) } key = [] := by
  have rest := armed_without s.timers timer.id key
  rw [armed] at armed' ⊢
  rw [rest,armed']
  simp

variable (key) in
theorem flushRow_bare (clocked : Clocked s) (free : s.originFetches.contains key = false) (row : Row)
    (bare : row.renew = none ∧ row.withdraw = none) (unarmed : armed s key = []) :
    Touches s (s.flushRow key row) key [.fetching key 0] ∧ Rests (s.flushRow key row) key .idle := by
  have same :
      s.flushRow key row = ({ s with steadyFetches := s.steadyFetches.erase key } : State).tell (.fetching key 0) := by
    rw [flushRow,if_neg (by rw [bare.1]; simp),bare.2]
    dsimp only [clearTimer]
    rw [if_neg (by rw [free]; simp)]
  have erased : Touches s { s with steadyFetches := s.steadyFetches.erase key } key [] := Touches.erase clocked
  rw [same]
  refine ⟨erased.trans (Touches.tell _ erased.clocked _),?_,unarmed⟩
  exact (get?_erase _ _ _).trans (if_pos rfl)
theorem flushRow_deferred (clocked : Clocked s) (free : s.originFetches.contains key = false) {serial id due : Nat}
    (armed' : armed s key = [⟨id,due,.withdraw key serial⟩]) :
    Touches s (s.flushRow key ⟨serial,none,some id⟩) key [.fetching key 0] ∧
      Rests (s.flushRow key ⟨serial,none,some id⟩) key .idle := by
  have cleared : Touches s { s with timers := s.timers.filter (·.id ≠ id) } key [] :=
    Touches.unarm ⟨id,due,.withdraw key serial⟩ clocked (by rw [armed']; exact List.mem_singleton_self _)
  have same : s.flushRow key ⟨serial,none,some id⟩ =
      ({ s with timers := s.timers.filter (·.id ≠ id) } : State).flushRow key ⟨serial,none,none⟩ := rfl
  rw [same]
  obtain ⟨touches,rests⟩ :=
    flushRow_bare (s := { s with timers := s.timers.filter (·.id ≠ id) }) key cleared.clocked free ⟨serial,none,none⟩
    ⟨rfl,rfl⟩ (unarm_armed ⟨id,due,.withdraw key serial⟩ armed')
  exact ⟨cleared.trans touches,rests⟩
theorem flush_deferred (clocked : Clocked s) (free : s.originFetches.contains key = false) {due : Nat}
    (rests : Rests s key (.deferred due)) :
    Touches s (s.flushFetchWithdrawal key) key [.fetching key 0] ∧ Rests (s.flushFetchWithdrawal key) key .idle := by
  obtain ⟨serial,id,row,armed'⟩ := rests
  rw [flushFetchWithdrawal,row]
  exact flushRow_deferred clocked free armed'
theorem flush_leased {due : Nat} (rests : Rests s key (.leased due)) : s.flushFetchWithdrawal key = s := by
  obtain ⟨serial,id,row,_⟩ := rests
  rw [flushFetchWithdrawal,row]
  exact if_pos (by simp)
theorem flush_idle (rests : Rests s key .idle) : s.flushFetchWithdrawal key = s := by
  rw [flushFetchWithdrawal,rests.1]

/-- A renewed lease is due when it was, if it was one. -/
def Phase.renewed (now : Nat) : Phase → Phase
  | .leased due => .leased due
  | _ => .leased (now + 1000)
theorem renew_moves (clocked : Clocked s) {phase : Phase} (rests : Rests s key phase) :
    Touches s (s.renewFetch key) key [] ∧ Rests (s.renewFetch key) key (phase.renewed s.now) := by
  cases phase with
  | idle =>
    obtain ⟨free,unarmed⟩ := rests
    obtain ⟨t,counted⟩ : ∃ t : State, t = { s with rows := s.rows + 1 } := ⟨_,rfl⟩
    have same : s.renewFetch key = (t.after 1000 (.renew key s.rows)).setRow key ⟨s.rows,some t.made,none⟩ := by
      rw [renewFetch,free,counted]
      rfl
    have first : Touches s t key [] := by
      rw [counted]
      exact ⟨fun _ _ => rfl,fun _ _ => rfl,clocked.same rfl rfl,(List.append_nil _).symm,⟨rfl,rfl,rfl,rfl,rfl,rfl⟩⟩
    have second := first.silent (Touches.after first.clocked 1000 (.renew key s.rows) rfl)
    rw [same]
    refine ⟨second.silent (Touches.setRow _ second.clocked _),s.rows,t.made,(get?_setRow _ _ _ _).trans (if_pos rfl),?_⟩
    have still : armed t key = [] := by
      rw [counted]
      exact unarmed
    rw [← first.fixed.now]
    exact armed_own still rfl
  | leased due =>
    obtain ⟨serial,id,row,armed'⟩ := rests
    have same : s.renewFetch key = s.setRow key ⟨serial,some id,none⟩ := by
      rw [renewFetch,row]
      exact if_pos (by simp)
    rw [same]
    exact ⟨Touches.setRow _ clocked _,serial,id,(get?_setRow _ _ _ _).trans (if_pos rfl),armed'⟩
  | deferred due =>
    obtain ⟨serial,id,row,armed'⟩ := rests
    obtain ⟨t,cleared⟩ : ∃ t : State, t = { s with timers := s.timers.filter (·.id ≠ id) } := ⟨_,rfl⟩
    have same : s.renewFetch key = (t.after 1000 (.renew key serial)).setRow key ⟨serial,some t.made,none⟩ := by
      rw [renewFetch,row,cleared]
      exact if_neg (by simp)
    have first : Touches s t key [] := by
      rw [cleared]
      exact Touches.unarm ⟨id,due,.withdraw key serial⟩ clocked (by rw [armed']; exact List.mem_singleton_self _)
    have second := first.silent (Touches.after first.clocked 1000 (.renew key serial) rfl)
    rw [same]
    refine ⟨second.silent (Touches.setRow _ second.clocked _),serial,t.made,(get?_setRow _ _ _ _).trans (if_pos rfl),?_⟩
    have still : armed t key = [] := by
      rw [cleared]
      exact unarm_armed ⟨id,due,.withdraw key serial⟩ armed'
    rw [← first.fixed.now]
    exact armed_own still rfl

/-- The last release of a key that is not held defers its withdrawal, if there is a body
    to announce; any other withdraws at once. -/
theorem withdraw_moves (clocked : Clocked s) (free : s.originFetches.contains key = false) {due : Nat}
    (rests : Rests s key (.leased due)) (announce : Bool) :
    (announce = true ∧ s.held.contains key = false ∧ Touches s (s.withdrawFetch key announce) key [] ∧
      Rests (s.withdrawFetch key announce) key (.deferred (s.now + 1000))) ∨
    (¬ (announce = true ∧ s.held.contains key = false) ∧
      Touches s (s.withdrawFetch key announce) key [.fetching key 0] ∧
      Rests (s.withdrawFetch key announce) key .idle) := by
  obtain ⟨serial,id,row,armed'⟩ := rests
  obtain ⟨t,cleared⟩ : ∃ t : State, t = { s with timers := s.timers.filter (·.id ≠ id) } := ⟨_,rfl⟩
  have first : Touches s t key [] := by
    rw [cleared]
    exact Touches.unarm ⟨id,due,.renew key serial⟩ clocked (by rw [armed']; exact List.mem_singleton_self _)
  have still : armed t key = [] := by
    rw [cleared]
    exact unarm_armed ⟨id,due,.renew key serial⟩ armed'
  by_cases waits : announce = true ∧ s.held.contains key = false
  · left
    have same : s.withdrawFetch key announce =
        (t.after 1000 (.withdraw key serial)).setRow key ⟨serial,none,some t.made⟩ := by
      rw [withdrawFetch,row,cleared]
      exact if_pos ⟨waits.1,waits.2,rfl⟩
    have second := first.silent (Touches.after first.clocked 1000 (.withdraw key serial) rfl)
    rw [same]
    refine ⟨waits.1,waits.2,second.silent (Touches.setRow _ second.clocked _),serial,t.made,
      (get?_setRow _ _ _ _).trans (if_pos rfl),?_⟩
    rw [← first.fixed.now]
    exact armed_own still rfl
  · right
    have same : s.withdrawFetch key announce = (t.setRow key ⟨serial,none,none⟩).flushRow key ⟨serial,none,none⟩ := by
      rw [withdrawFetch,row,cleared]
      exact if_neg (fun all => waits ⟨all.1,all.2.1⟩)
    have second := first.silent (Touches.setRow _ first.clocked ⟨serial,none,none⟩)
    obtain ⟨third,rests⟩ := flushRow_bare key second.clocked (by rw [second.fixed.originFetches]; exact free)
      ⟨serial,none,none⟩ ⟨rfl,rfl⟩ still
    rw [same]
    exact ⟨waits,second.trans third,rests⟩

/-! ### The swarm -/

/-- Every key is in a phase, leased exactly while it is claimed, and the claims are counted. -/
structure Sound (s : State) : Prop where
  clocked : Clocked s
  phase : ∀ key, ∃ phase, Rests s key phase ∧ (phase.leases ↔ 0 < outstanding s key)
  counted : ∀ key, s.originFetches.get? key = if outstanding s key = 0 then none else some (outstanding s key)
theorem start_sound (options : Options) : Sound (State.start options) where
  clocked := ⟨List.nodup_nil,fun _ member => by cases member⟩
  phase key := ⟨.idle,⟨rfl,rfl⟩,by simp [Phase.leases,outstanding,State.start]⟩
  counted key := rfl

/-- What an event does about a key: its phase before and behind, and what every link is
    told. -/
inductive Turn (s : State) (key : String) : Event → Phase → Phase → List Message → Prop where
  | claimed (phase : Phase) : Turn s key (.claim key true) phase (phase.renewed s.now) [.fetching key 2000]
  | renewed (id : Nat) {due : Nat} (passed : due ≤ s.now) :
    Turn s key (.fire id) (.leased due) (.leased (s.now + 1000)) [.fetching key 2000]
  | deferred (index due : Nat) (unheld : s.held.contains key = false) :
    Turn s key (.release index true) (.leased due) (.deferred (s.now + 1000)) []
  | withdrawn (index due : Nat) {announce : Bool} (bare : ¬ (announce = true ∧ s.held.contains key = false)) :
    Turn s key (.release index announce) (.leased due) .idle [.fetching key 0]
  | lapsed (id : Nat) {due : Nat} (passed : due ≤ s.now) : Turn s key (.fire id) (.deferred due) .idle [.fetching key 0]
  | refused (due size reservation : Nat) (pinned : String → Bool) (allowed still : Bool)
    (unannounced : s.declines key size allowed = true ∨ still = false) :
    Turn s key (.hold key size reservation pinned allowed still) (.deferred due) .idle [.fetching key 0]
  | announced (due size reservation : Nat) (pinned : String → Bool) (allowed : Bool)
    (taken : s.declines key size allowed = false) :
    Turn s key (.hold key size reservation pinned allowed true) (.deferred due) .idle
      [.haveChange (if (s.taking key size reservation pinned).held.contains key then [key] else [])
        (s.taking key size reservation pinned).evicted,.fetching key 0]
/-- A key that an event leaves alone: no link is told that it is withdrawn. -/
structure Still (s s' : State) (key : String) (phase : Phase) : Prop where
  rests : Rests s' key phase
  silent : ∃ told, s'.log = s.log ++ told ∧ ∀ broadcast ∈ told, broadcast.message ≠ .fetching key 0
/-- A key in its turn. -/
structure Turns (s : State) (e : Event) (s' : State) (key : String) (phase phase' : Phase)
    (told : List Message) : Prop where
  turn : Turn s key e phase phase' told
  rests : Rests s' key phase'
  log : s'.log = s.log ++ told.map (fun message => ⟨s.now,s.links,message⟩)

theorem claim_counts (claims : List Claim) (key other : String) (counted : Bool) :
    List.countP (Claim.stands other) (claims ++ [⟨key,counted,false⟩]) =
      claims.countP (Claim.stands other) + if key = other ∧ counted = true then 1 else 0 := by
  rw [List.countP_append]
  by_cases same : key = other <;> cases counted <;> simp [same,Claim.stands]
theorem release_counts : ∀ (claims : List Claim) (index : Nat)
    (claim : Claim), claims[index]? = some claim → claim.counted = true →
    claim.released = false → ∀ key,
    claims.countP (Claim.stands key) =
      (claims.set index { claim with released := true }).countP (Claim.stands key) + if claim.key = key then 1
        else 0 := by
  intro claims
  induction claims with
  | nil =>
    intro index claim found
    simp at found
  | cons first rest ih =>
    intro index claim found counted unreleased key
    cases index with
    | zero =>
      cases found
      simp [List.countP_cons,Claim.stands,counted,unreleased]
    | succ index =>
      have behind := ih index claim (by simpa using found) counted unreleased key
      simp only [List.set_cons_succ,List.countP_cons,behind]
      omega
theorem leases_leased {phase : Phase} (leases : phase.leases) : ∃ due, phase = .leased due := by
  cases phase with
  | leased due => exact ⟨due,rfl⟩
  | idle | deferred => exact leases.elim
theorem contains_counted (sound : Sound s) (key : String) :
    s.originFetches.contains key = decide (0 < outstanding s key) := by
  rw [IndexMap.contains,sound.counted key]
  by_cases absent : outstanding s key = 0
  · simp [absent]
  · simp [absent,Nat.pos_of_ne_zero absent]

theorem Sound.touched (sound : Sound s) (touches : Touches s s' key told) {phase : Phase} (rests : Rests s' key phase)
    (leases : phase.leases ↔ 0 < outstanding s key) : Sound s' where
  clocked := touches.clocked
  phase other := by
    have same : outstanding s' other = outstanding s other := by rw [outstanding,touches.fixed.claims,outstanding]
    rw [same]
    by_cases own : other = key
    · rw [own]
      exact ⟨phase,rests,leases⟩
    · obtain ⟨old,held,claimed⟩ := sound.phase other
      exact ⟨old,held.same (touches.rows other own) (touches.timers other own),claimed⟩
  counted other := by
    have same : outstanding s' other = outstanding s other := by rw [outstanding,touches.fixed.claims,outstanding]
    rw [same,touches.fixed.originFetches]
    exact sound.counted other
theorem Touches.still (touches : Touches s s' key told) {other : String} (apart : other ≠ key)
    (others : ∀ message ∈ told, message ≠ .fetching other 0) {phase : Phase}
    (rests : Rests s other phase) : Still s s' other phase where
  rests := rests.same (touches.rows other apart) (touches.timers other apart)
  silent := by
    refine ⟨_,touches.log,?_⟩
    rintro broadcast member
    obtain ⟨message,listed,rfl⟩ := List.mem_map.mp member
    exact others message listed

theorem timer_known {s : State} {id : Nat} (found : s.timers.find? (·.id = id) = some timer) :
    timer.id = id ∧ timer ∈ armed s timer.action.key := by
  constructor
  · simpa using List.find?_some found
  · exact List.mem_filter.mpr ⟨List.mem_of_find?_eq_some found,by simp⟩
theorem Clocked.find {s : State} (clocked : Clocked s) {key : String} (own : timer ∈ armed s key) :
    s.timers.find? (·.id = timer.id) = some timer := by
  have inside := (List.mem_filter.mp own).1
  cases found : s.timers.find? (·.id = timer.id) with
  | none => exact absurd (List.find?_eq_none.mp found timer inside) (by simp)
  | some other =>
    have same : other.id = timer.id := by simpa using List.find?_some found
    rw [List.inj_on_of_nodup_map clocked.once (List.mem_of_find?_eq_some found) inside same]
theorem fire_early {id : Nat} (early : ∀ timer, s.timers.find? (·.id = id) = some timer → s.now < timer.due) :
    s.fire id = s := by
  rw [fire]
  split
  · rfl
  · rename_i timer found
    exact if_pos (early timer found)
theorem fire_moves (sound : Sound s) {id : Nat} (found : s.timers.find? (·.id = id) = some timer)
    (late : timer.due ≤ s.now) :
    (Rests s timer.action.key (.leased timer.due) ∧
      Touches s (s.fire id) timer.action.key [.fetching timer.action.key 2000] ∧
      Rests (s.fire id) timer.action.key (.leased (s.now + 1000))) ∨
    (Rests s timer.action.key (.deferred timer.due) ∧
      Touches s (s.fire id) timer.action.key [.fetching timer.action.key 0] ∧
      Rests (s.fire id) timer.action.key .idle) := by
  have early : ¬ s.now < timer.due := not_lt.mpr late
  obtain ⟨named,own⟩ := timer_known found
  obtain ⟨key,whose⟩ : ∃ key, key = timer.action.key := ⟨_,rfl⟩
  rw [← whose] at own ⊢
  obtain ⟨t,without⟩ : ∃ t : State, t = { s with timers := s.timers.filter (·.id ≠ id) } := ⟨_,rfl⟩
  have first : Touches s t key [] := by
    rw [without,← named]
    exact Touches.unarm _ sound.clocked own
  obtain ⟨phase,rests,leases⟩ := sound.phase key
  cases phase with
  | idle =>
    rw [rests.2] at own
    cases own
  | leased due =>
    obtain ⟨serial,number,row,armed'⟩ := rests
    rw [armed'] at own
    have whole := List.mem_singleton.mp own
    have dated : due = timer.due := by rw [whole]
    have still : armed t key = [] := by
      rw [without,← named]
      exact unarm_armed _ (by rw [armed',whole])
    have claimed : s.originFetches.contains key = true := by
      rw [contains_counted sound]
      simpa using leases.mp trivial
    obtain ⟨u,announced⟩ : ∃ u : State, u = { (t.setRow key ⟨serial,none,none⟩).tell (.fetching key 2000) with
      fetchRenewalsSent := s.fetchRenewalsSent + 1 } := ⟨_,rfl⟩
    have same : s.fire id = (u.after 1000 (.renew key serial)).setRow key ⟨serial,some u.made,none⟩ := by
      rw [fire,found]
      dsimp only
      rw [if_neg early,whole]
      dsimp only [Action.key]
      rw [row]
      dsimp only
      rw [if_neg (not_not.mpr rfl)]
      have carried : (({ s with timers := s.timers.filter (·.id ≠ id) } : State).setRow key ⟨serial,none,
          none⟩).originFetches.contains key =
          true := claimed
      rw [if_neg (by rw [carried]; simp),announced,without]
      rfl
    have second := first.silent (Touches.setRow key first.clocked ⟨serial,none,none⟩)
    have third : Touches s u key [.fetching key 2000] := by
      have told := second.trans (Touches.tell key second.clocked (.fetching key 2000))
      rw [announced]
      exact ⟨told.rows,told.timers,told.clocked.same rfl rfl,told.log,told.fixed.options,told.fixed.now,
        told.fixed.claims,told.fixed.originFetches,told.fixed.held,told.fixed.links⟩
    have fourth := third.silent (Touches.after third.clocked 1000 (.renew key serial) rfl)
    have bare : armed u key = [] := by
      rw [announced]
      exact still
    rw [same]
    refine .inl ⟨?_,fourth.silent (Touches.setRow _ fourth.clocked _),serial,u.made,?_,?_⟩
    · rw [← dated]
      exact ⟨serial,number,row,armed'⟩
    · exact (get?_setRow _ _ _ _).trans (if_pos rfl)
    · rw [← third.fixed.now]
      exact armed_own bare rfl
  | deferred due =>
    obtain ⟨serial,number,row,armed'⟩ := rests
    rw [armed'] at own
    have whole := List.mem_singleton.mp own
    have dated : due = timer.due := by rw [whole]
    have still : armed t key = [] := by
      rw [without,← named]
      exact unarm_armed _ (by rw [armed',whole])
    have free : s.originFetches.contains key = false := by
      have unclaimed : ¬ 0 < outstanding s key := fun claimed => leases.mpr claimed
      rw [contains_counted sound]
      simpa using unclaimed
    have same : s.fire id = (t.setRow key ⟨serial,none,none⟩).flushRow key ⟨serial,none,none⟩ := by
      rw [fire,found]
      dsimp only
      rw [if_neg early,whole]
      dsimp only [Action.key]
      rw [row]
      dsimp only
      rw [if_neg (not_not.mpr rfl),without]
    have second := first.silent (Touches.setRow key first.clocked ⟨serial,none,none⟩)
    obtain ⟨third,ends⟩ := flushRow_bare key second.clocked (by rw [second.fixed.originFetches]; exact free)
      ⟨serial,none,none⟩ ⟨rfl,rfl⟩ still
    rw [same]
    rw [← dated]
    exact .inr ⟨⟨serial,number,row,armed'⟩,second.trans third,ends⟩

/-- An event keeps the swarm sound, and every key is still or in its turn. -/
def Stepped (s : State) (e : Event) : Prop :=
  Sound (s.step e) ∧ ∀ key, ∃ phase, Rests s key phase ∧
    (Still s (s.step e) key phase ∨ ∃ phase' told, Turns s e (s.step e) key phase phase' told)

theorem Sound.aside (sound : Sound s) (rows : s'.steadyFetches = s.steadyFetches) (timers : s'.timers = s.timers)
    (made : s'.made = s.made)
    (counts : ∀ key, outstanding s' key = outstanding s key) (fetches : s'.originFetches = s.originFetches)
    (silent : ∃ told, s'.log = s.log ++ told ∧ ∀ broadcast ∈ told, ∀ key, broadcast.message ≠ .fetching key 0) :
    Sound s' ∧ ∀ key, ∃ phase, Rests s key phase ∧ Still s s' key phase := by
  have same : ∀ {key phase}, Rests s key phase → Rests s' key phase :=
    fun rests => rests.same (by rw [rows]) (by rw [armed,timers,armed])
  constructor
  · constructor
    · exact sound.clocked.same timers made
    · intro key
      obtain ⟨phase,rests,leases⟩ := sound.phase key
      exact ⟨phase,same rests,by rw [counts]; exact leases⟩
    · intro key
      rw [counts,fetches]
      exact sound.counted key
  · intro key
    obtain ⟨phase,rests,_⟩ := sound.phase key
    obtain ⟨told,log,others⟩ := silent
    exact ⟨phase,rests,same rests,told,log,fun broadcast member => others broadcast member key⟩
theorem aside_stepped {e : Event} (both : Sound (s.step e) ∧ ∀ key, ∃ phase, Rests s key phase ∧
    Still s (s.step e) key phase) :
    Stepped s e := by
  refine ⟨both.1,fun key => ?_⟩
  obtain ⟨phase,rests,still⟩ := both.2 key
  exact ⟨phase,rests,.inl still⟩

theorem claim_stepped (sound : Sound s) (key : String) (allowed : Bool) : Stepped s (.claim key allowed) := by
  by_cases refused : !allowed ∨ s.options.maxConcurrentRaces ≤ s.originFetches.length
  · have same : s.step (.claim key allowed) = { s with claims := s.claims ++ [⟨key,false,false⟩] } := if_pos refused
    refine aside_stepped ?_
    rw [same]
    refine sound.aside rfl rfl rfl (fun other => ?_) rfl ⟨[],(List.append_nil _).symm,by simp⟩
    rw [outstanding,claim_counts,outstanding]
    simp
  · obtain ⟨b,counting⟩ : ∃ b : State, b = { s with
      originFetches := s.originFetches.insert key ((s.originFetches.get? key).getD 0 + 1) } := ⟨_,rfl⟩
    obtain ⟨t,renewing⟩ : ∃ t : State, t = (b.tell (.fetching key 2000)).renewFetch key := ⟨_,rfl⟩
    have same : s.step (.claim key allowed) = { t with claims := t.claims ++ [⟨key,true,false⟩] } := by
      rw [renewing,counting]
      exact if_neg refused
    have isOpen : allowed = true := by
      rw [not_or] at refused
      simpa using refused.1
    have told : Touches b (b.tell (.fetching key 2000)) key [.fetching key 2000] :=
      Touches.tell _ (by rw [counting]; exact sound.clocked.same rfl rfl) _
    obtain ⟨phase,rests,leases⟩ := sound.phase key
    have first : Rests (b.tell (.fetching key 2000)) key phase := by
      rw [counting]
      exact rests.same rfl rfl
    obtain ⟨renewed,leased⟩ := renew_moves told.clocked first
    have moves := told.silent renewed
    rw [← renewing] at moves leased
    have now : (b.tell (.fetching key 2000)).now = s.now := by rw [counting]; rfl
    rw [now] at leased
    have claims : t.claims = s.claims := by rw [moves.fixed.claims,counting]
    have log : t.log = s.log ++ [⟨s.now,s.links,.fetching key 2000⟩] := by
      rw [moves.log,counting]
      rfl
    have others : ∀ other, other ≠ key → ∀ {phase}, Rests s other phase → Rests t other phase := by
      intro other apart phase rests
      refine rests.same ((moves.rows other apart).trans ?_) ((moves.timers other apart).trans ?_)
      · rw [counting]
      · rw [counting,armed,armed]
    have more : ∀ other, outstanding { t with claims := t.claims ++ [⟨key,true,false⟩] } other =
        outstanding s other + if key = other then 1 else 0 := by
      intro other
      rw [outstanding,claim_counts,claims,outstanding]
      simp
    rw [Stepped,same]
    constructor
    · constructor
      · exact moves.clocked.same rfl rfl
      · intro other
        rw [more]
        by_cases own : other = key
        · refine ⟨phase.renewed s.now,by rw [own]; exact leased,?_⟩
          have now' : (phase.renewed s.now).leases := by cases phase <;> trivial
          simp [own,now']
        · obtain ⟨old,held,claimed⟩ := sound.phase other
          rw [if_neg (Ne.symm own)]
          exact ⟨old,others other own held,claimed⟩
      · intro other
        rw [more]
        have fetches : t.originFetches = b.originFetches := moves.fixed.originFetches
        show t.originFetches.get? other = _
        rw [fetches,counting,IndexMap.get?_insert,sound.counted key]
        by_cases own : other = key
        · rw [if_pos own,own]
          by_cases absent : outstanding s key = 0 <;> simp [absent]
        · rw [if_neg own,if_neg (Ne.symm own),sound.counted other]
          rfl
    · intro other
      by_cases own : other = key
      · rw [own]
        refine ⟨phase,rests,.inr ⟨phase.renewed s.now,[.fetching key 2000],?_,leased,log⟩⟩
        rw [isOpen]
        exact .claimed phase
      · obtain ⟨old,held,_⟩ := sound.phase other
        refine ⟨old,held,.inl ⟨others other own held,[⟨s.now,s.links,.fetching key 2000⟩],log,?_⟩⟩
        simp

section
variable {claims : List Claim} {due : Nat} {e : Event}

/-- A key is released that others still lease. -/
theorem release_shared (sound : Sound s) (rests : Rests s key (.leased due))
    (fewer : ∀ other, outstanding s other = outstanding { s with claims } other + if key = other then 1 else 0)
    (more : 0 < outstanding { s with claims } key)
    (same : s.step e =
      { s with claims, originFetches := s.originFetches.insert key (outstanding { s with claims } key) }) :
    Stepped s e := by
  have apart : ∀ {other}, other ≠ key → outstanding s other = outstanding { s with claims } other := by
    intro other apart
    rw [fewer,if_neg (Ne.symm apart)]
    rfl
  refine aside_stepped ?_
  rw [same]
  constructor
  · constructor
    · exact sound.clocked.same rfl rfl
    · intro other
      by_cases own : other = key
      · rw [own]
        exact ⟨.leased due,rests.same rfl rfl,fun _ => more,fun _ => trivial⟩
      · obtain ⟨old,held,claimed⟩ := sound.phase other
        rw [apart own] at claimed
        exact ⟨old,held.same rfl rfl,claimed⟩
    · intro other
      show (s.originFetches.insert key (outstanding { s with claims } key)).get? other =
        if outstanding { s with claims } other = 0 then none else some (outstanding { s with claims } other)
      rw [IndexMap.get?_insert]
      by_cases own : other = key
      · rw [if_pos own,own,if_neg (by omega)]
      · rw [if_neg own,← apart own]
        exact sound.counted other
  · intro other
    obtain ⟨old,held,_⟩ := sound.phase other
    exact ⟨old,held,held.same rfl rfl,[],(List.append_nil _).symm,by simp⟩
/-- Once nothing leases a key its row is withdrawn, now or later. -/
theorem release_last (sound : Sound s) (rests : Rests s key (.leased due))
    (fewer : ∀ other, outstanding s other = outstanding { s with claims } other + if key = other then 1 else 0)
    (last : outstanding { s with claims } key = 0) {t : State} {phase : Phase}
    (touches : Touches { s with claims, originFetches := s.originFetches.erase key } t key told)
    (behind : Rests t key phase) (unleased : ¬ phase.leases)
    (own : ∀ message ∈ told, ∀ other, message = .fetching other 0 → other = key)
    (turn : Turn s key e (.leased due) phase told) (same : s.step e = t) : Stepped s e := by
  have claims : ∀ other, outstanding t other = outstanding { s with claims } other := by
    intro other
    rw [outstanding,touches.fixed.claims,outstanding]
  rw [Stepped,same]
  constructor
  · constructor
    · exact touches.clocked
    · intro other
      rw [claims]
      by_cases mine : other = key
      · rw [mine,last]
        exact ⟨phase,behind,by simp [unleased]⟩
      · obtain ⟨old,held,claimed⟩ := sound.phase other
        refine ⟨old,held.same (touches.rows other mine) (touches.timers other mine),?_⟩
        rw [claimed,fewer,if_neg (Ne.symm mine)]
        rfl
    · intro other
      rw [claims,touches.fixed.originFetches]
      dsimp only
      rw [get?_erase]
      by_cases mine : other = key
      · rw [if_pos mine,mine,last]
        rfl
      · rw [if_neg mine,sound.counted other,fewer,if_neg (Ne.symm mine)]
        rfl
  · intro other
    have spoken : t.log = s.log ++ told.map (fun message => ⟨s.now,s.links,message⟩) := touches.log
    by_cases mine : other = key
    · rw [mine]
      exact ⟨.leased due,rests,.inr ⟨phase,told,turn,behind,spoken⟩⟩
    · obtain ⟨old,held,_⟩ := sound.phase other
      refine ⟨old,held,.inl ⟨held.same (touches.rows other mine) (touches.timers other mine),_,spoken,?_⟩⟩
      rintro broadcast member silent
      obtain ⟨message,listed,rfl⟩ := List.mem_map.mp member
      exact mine (own message listed other silent)

end

theorem release_stepped (sound : Sound s) (index : Nat) (announce : Bool) : Stepped s (.release index announce) := by
  have nothing : s.step (.release index announce) = s → Stepped s (.release index announce) := by
    intro same
    refine aside_stepped ?_
    rw [same]
    exact sound.aside rfl rfl rfl (fun _ => rfl) rfl ⟨[],(List.append_nil _).symm,by simp⟩
  cases found : s.claims[index]? with
  | none => exact nothing (by rw [State.step,release,found])
  | some claim =>
    obtain ⟨key,counts',released'⟩ := claim
    by_cases spent : !counts' ∨ released'
    · refine nothing ?_
      rw [State.step,release,found]
      exact if_pos spent
    have stands : counts' = true ∧ released' = false := by
      rw [not_or] at spent
      simpa using spent
    have fewer : ∀ other, outstanding s other =
        outstanding { s with claims := s.claims.set index ⟨key,counts',true⟩ } other + if key = other then 1 else 0 :=
      release_counts s.claims index ⟨key,counts',released'⟩ found stands.1 stands.2
    generalize marked : s.claims.set index ⟨key,counts',true⟩ = claims at fewer
    have own := fewer key
    rw [if_pos rfl] at own
    have counted : s.originFetches.get? key = some (outstanding s key) := by
      rw [sound.counted key,if_neg (by omega)]
    have remaining : (if (s.originFetches.get? key).getD 0 = 0 then 1 else (s.originFetches.get? key).getD 0) - 1 =
        outstanding { s with claims } key := by
      rw [counted,Option.getD_some,if_neg (by omega)]
      omega
    obtain ⟨phase,rests,leases⟩ := sound.phase key
    obtain ⟨due,rfl⟩ := leases_leased (leases.mpr (by omega))
    by_cases more : 0 < outstanding { s with claims } key
    · refine release_shared sound rests fewer more ?_
      rw [State.step,release,found]
      dsimp only
      rw [if_neg spent,remaining,if_pos more,marked]
    · have last : outstanding { s with claims } key = 0 := by omega
      have same : s.step (.release index announce) =
          State.withdrawFetch { s with claims, originFetches := s.originFetches.erase key } key announce := by
        rw [State.step,release,found]
        dsimp only
        rw [if_neg spent,remaining,if_neg more,marked]
      have free : (s.originFetches.erase key).contains key = false := by
        rw [IndexMap.contains,get?_erase,if_pos rfl]
        rfl
      have withdrawn := @withdraw_moves { s with claims, originFetches := s.originFetches.erase key } key
        (sound.clocked.same rfl rfl) free due (rests.same rfl rfl) announce
      rcases withdrawn with ⟨announced,unheld,touches,behind⟩ | ⟨bare,touches,behind⟩
      · refine release_last sound rests fewer last touches behind (by simp [Phase.leases]) (by simp) ?_ same
        rw [announced]
        exact .deferred index due unheld
      · exact release_last sound rests fewer last touches behind (by simp [Phase.leases]) (by simp)
          (.withdrawn index due bare) same

theorem fire_stepped (sound : Sound s) (id : Nat) : Stepped s (.fire id) := by
  -- A key that the timer is not of hears of it at most what it hears of another key.
  have apart : ∀ {t : State} {key : String} {message : Message}, Touches s t key [message] →
      (∀ other, message = .fetching other 0 → other = key) → ∀ other, other ≠ key → ∃ phase, Rests s other phase ∧
        Still s t other phase := by
    intro t key message touches others other apart
    obtain ⟨old,held,_⟩ := sound.phase other
    refine ⟨old,held,touches.still apart ?_ held⟩
    intro told listed same
    rw [List.mem_singleton.mp listed] at same
    exact apart (others other same)
  have nothing : s.fire id = s → Stepped s (.fire id) := by
    intro same
    refine aside_stepped ?_
    rw [State.step,same]
    exact sound.aside rfl rfl rfl (fun _ => rfl) rfl ⟨[],(List.append_nil _).symm,by simp⟩
  rcases found : s.timers.find? (·.id = id) with _ | timer
  · exact nothing (fire_early (by simp [found]))
  by_cases early : s.now < timer.due
  · refine nothing (fire_early fun other same => ?_)
    rw [found] at same
    cases same
    exact early
  have late := not_lt.mp early
  obtain ⟨key,whose⟩ : ∃ key, key = timer.action.key := ⟨_,rfl⟩
  have moves := fire_moves sound found late
  rw [← whose] at moves
  rcases moves with ⟨rests,touches,behind⟩ | ⟨rests,touches,behind⟩
  · obtain ⟨phase,own,leases⟩ := sound.phase key
    have leased := own.unique rests
    rw [leased] at leases
    refine ⟨sound.touched touches behind leases,fun other => ?_⟩
    by_cases same : other = key
    · rw [same]
      exact ⟨.leased timer.due,rests,.inr ⟨_,_,.renewed id late,behind,touches.log⟩⟩
    · obtain ⟨old,held,still⟩ := apart touches (by simp) other same
      exact ⟨old,held,.inl still⟩
  · obtain ⟨phase,own,leases⟩ := sound.phase key
    have waits := own.unique rests
    rw [waits] at leases
    refine ⟨sound.touched touches behind leases,fun other => ?_⟩
    by_cases same : other = key
    · rw [same]
      exact ⟨.deferred timer.due,rests,.inr ⟨_,_,.lapsed id late,behind,touches.log⟩⟩
    · obtain ⟨old,held,still⟩ := apart touches (by simp) other same
      exact ⟨old,held,.inl still⟩

variable (key) in
/-- What the swarm holds and has announced changes before the withdrawal of a key that may wait. -/
theorem flush_stepped {e : Event} {u : State} (told : List Message) (sound : Sound s)
    (reached : s.step e = u.flushFetchWithdrawal key)
    (rows : u.steadyFetches = s.steadyFetches) (timers : u.timers = s.timers) (made : u.made = s.made)
    (claims : u.claims = s.claims) (fetches : u.originFetches = s.originFetches) (now : u.now = s.now)
    (links : u.links = s.links)
    (log : u.log = s.log ++ told.map (fun message => ⟨s.now,s.links,message⟩))
    (others : ∀ message ∈ told, ∀ other, message ≠ .fetching other 0)
    (turn : ∀ due, Turn s key e (.deferred due) .idle (told ++ [.fetching key 0])) : Stepped s e := by
  have counts : ∀ other, outstanding u other = outstanding s other := by
    intro other
    rw [outstanding,claims,outstanding]
  have quiet : ∀ broadcast ∈ told.map (fun message => (⟨s.now,s.links,message⟩ : Broadcast)), ∀ other,
      broadcast.message ≠ .fetching other 0 := by
    rintro broadcast member other
    obtain ⟨message,listed,rfl⟩ := List.mem_map.mp member
    exact others message listed other
  have aside := sound.aside rows timers made counts fetches ⟨_,log,quiet⟩
  have same : ∀ {other phase}, Rests s other phase → Rests u other phase :=
    fun rests => rests.same (by rw [rows]) (by rw [armed,timers,armed])
  obtain ⟨phase,rests,leases⟩ := sound.phase key
  cases phase with
  | idle =>
    refine aside_stepped ?_
    rw [reached,flush_idle (same rests)]
    exact aside
  | leased due =>
    refine aside_stepped ?_
    rw [reached,flush_leased (same rests)]
    exact aside
  | deferred due =>
    have free : u.originFetches.contains key = false := by
      have unclaimed : ¬ 0 < outstanding u key := fun claimed => leases.mpr (counts key ▸ claimed)
      rw [contains_counted aside.1]
      simpa using unclaimed
    obtain ⟨touches,behind⟩ := flush_deferred aside.1.clocked free (same rests)
    have whole : (u.flushFetchWithdrawal key).log =
        s.log ++ (told ++ [Message.fetching key 0]).map (fun message => ⟨s.now,s.links,message⟩) := by
      rw [touches.log,log,now,links,List.map_append,List.append_assoc]
    rw [Stepped,reached]
    refine ⟨aside.1.touched touches behind (by rw [counts]; exact leases),fun other => ?_⟩
    by_cases own : other = key
    · rw [own]
      exact ⟨.deferred due,rests,.inr ⟨_,_,turn due,behind,whole⟩⟩
    · obtain ⟨old,held,_⟩ := sound.phase other
      refine ⟨old,held,.inl ⟨(same held).same (touches.rows other own) (touches.timers other own),_,whole,?_⟩⟩
      rintro broadcast member silent
      obtain ⟨message,listed,rfl⟩ := List.mem_map.mp member
      rcases List.mem_append.mp listed with old' | new
      · exact others message old' other silent
      · rw [List.mem_singleton.mp new] at silent
        cases silent
        exact own rfl
theorem hold_stepped (sound : Sound s) (key : String) (size reservation : Nat) (pinned : String → Bool)
    (allowed still : Bool) :
    Stepped s (.hold key size reservation pinned allowed still) := by
  by_cases declined : s.declines key size allowed = true
  · refine flush_stepped key (u := s) [] sound (if_pos declined) rfl rfl rfl rfl rfl rfl rfl
      (List.append_nil _).symm (by simp) ?_
    exact fun due => .refused due size reservation pinned allowed still (.inl declined)
  · have taken : s.declines key size allowed = false := by simpa using declined
    cases still with
    | false =>
      refine flush_stepped key (u := { s with
        held := (s.taking key size reservation pinned).held,heldBytes :=
          (s.taking key size reservation pinned).bytes }) [] sound
        (if_neg declined) rfl rfl rfl rfl rfl rfl rfl (List.append_nil _).symm (by simp) ?_
      exact fun due => .refused due size reservation pinned allowed false (.inr rfl)
    | true =>
      refine flush_stepped key (u := ({ s with
        held := (s.taking key size reservation pinned).held,heldBytes :=
          (s.taking key size reservation pinned).bytes } : State).tell
          (.haveChange (if (s.taking key size reservation pinned).held.contains key then [key] else [])
            (s.taking key size reservation pinned).evicted))
        [.haveChange (if (s.taking key size reservation pinned).held.contains key then [key] else [])
          (s.taking key size reservation pinned).evicted] sound
        (if_neg declined) rfl rfl rfl rfl rfl rfl rfl rfl (by simp) ?_
      exact fun due => .announced due size reservation pinned allowed taken

theorem stepped (sound : Sound s) (e : Event) : Stepped s e := by
  cases e with
  | claim key allowed => exact claim_stepped sound key allowed
  | release index announce => exact release_stepped sound index announce
  | fire id => exact fire_stepped sound id
  | hold key size reservation pinned allowed still => exact hold_stepped sound key size reservation pinned allowed still
  | wait ms =>
    exact aside_stepped (sound.aside rfl rfl rfl (fun _ => rfl) rfl ⟨[],(List.append_nil _).symm,by simp⟩)
  | linkClosed link =>
    exact aside_stepped (sound.aside rfl rfl rfl (fun _ => rfl) rfl ⟨[],(List.append_nil _).symm,by simp⟩)
  | withdrawHeld =>
    exact aside_stepped (sound.aside rfl rfl rfl (fun _ => rfl) rfl ⟨_,rfl,by simp⟩)
  | dropHeld key =>
    refine aside_stepped ?_
    rw [State.step,dropHeld]
    split
    · exact sound.aside rfl rfl rfl (fun _ => rfl) rfl ⟨[],(List.append_nil _).symm,by simp⟩
    · exact sound.aside rfl rfl rfl (fun _ => rfl) rfl ⟨_,rfl,by simp⟩
  | trimHeld limit pinned =>
    refine aside_stepped ?_
    rw [State.step,trimHeld]
    split
    · exact sound.aside rfl rfl rfl (fun _ => rfl) rfl ⟨[],(List.append_nil _).symm,by simp⟩
    · exact sound.aside rfl rfl rfl (fun _ => rfl) rfl ⟨_,rfl,by simp⟩
  | linkOpened link allowed =>
    refine aside_stepped (sound.aside rfl rfl rfl (fun _ => rfl) rfl ⟨_,rfl,?_⟩)
    rintro broadcast member key silent
    obtain ⟨message,listed,rfl⟩ := List.mem_map.mp member
    cases allowed with
    | false => cases listed
    | true =>
      rcases List.mem_cons.mp listed with rfl | fetching
      · cases silent
      · obtain ⟨other,_,rfl⟩ := List.mem_map.mp fetching
        cases silent
theorem run_sound (options : Options) (events : List Event) : Sound ((State.start options).run events) := by
  induction events using List.reverseRecOn with
  | nil => exact start_sound options
  | append_singleton before e ih =>
    rw [run,List.foldl_append]
    exact (stepped ih e).1
end RelaySwarm.FetchLease
