import RelaySwarm.Effect
import Mathlib.Data.List.TakeDrop
import Mathlib.Data.List.Range

/-!
A queue of requests that share durable writes. Requests are applied one at a time
in arrival order on a working state; those that queue while a write is in flight
form the next batch, whose outcomes are held from the first change on until the
batch is written. Whatever the interleaving of arrivals, writes and their
failures, what is released is what the requests give one after another, and it
depends on nothing that is not in the file (`run_orderly`).
-/
namespace RelaySwarm.DurableQueue
variable {σ ε κ φ α ρ : Type}

/-- What the queue runs: a request is applied, with a circumstance of its own, to
    the working state; only a writing request may change it. -/
structure System (σ ε κ φ α ρ : Type) where
  apply : κ → φ → σ → Effect ε ρ (α × σ)
  writes : κ → Bool
  cancelled : ρ
  unpersisted : ρ
  capacity : Nat

/-- An outcome, under the number of the request it is for. -/
abbrev Settled (α ρ : Type) := Nat × Except ρ α

/-- Where the queue is: nothing to do, going through a batch, or waiting for the
    write of one. -/
inductive Phase (σ κ α ρ : Type) where
  | idle
  | applying (left : List (Nat × κ)) (working : σ) (changed : Bool) (held : List (Settled α ρ))
  | writing (working : σ) (replaced : Bool) (held : List (Settled α ρ))

structure Queue (σ ε κ φ α ρ : Type) where
  memory : σ
  /-- What a restart would find. -/
  file : σ
  side : ε
  broken : Bool
  stopping : Bool
  waiting : List (Nat × κ)
  phase : Phase σ κ α ρ
  released : List (Settled α ρ)
  /-- Released outcomes the queue has counted as settled. -/
  settled : Nat
  /-- Every request the queue took, in arrival order. -/
  submitted : List κ
  /-- The requests applied before a write failed, in order. -/
  applied : List (κ × φ)

inductive Event (κ φ : Type) where
  | submit (request : κ)
  | settle
  | start
  | apply (circumstance : φ)
  | finish
  | replace
  | written
  | failed
  | stop

def opened (s : σ) (e : ε) : Queue σ ε κ φ α ρ := ⟨s,s,e,false,false,[],.idle,[],0,[],[]⟩

section
variable (system : System σ ε κ φ α ρ)

/-- One request on its own: its outcome, and the state and surroundings it leaves. -/
def one (s : σ) (e : ε) (request : κ × φ) : Except ρ α × σ × ε :=
  match system.apply request.1 request.2 s e with
  | (.ok (a,s'),e') => (.ok a,if system.writes request.1 then s' else s,e')
  | (.error r,e') => (.error r,s,e')
/-- The state and surroundings after requests one by one. -/
def after (s : σ) (e : ε) (requests : List (κ × φ)) : σ × ε :=
  requests.foldl (fun here request => (one system here.1 here.2 request).2) (s,e)
/-- The outcomes of requests one by one. -/
def outcomes (s : σ) (e : ε) : List (κ × φ) → List (Except ρ α)
  | [] => []
  | request :: rest => (one system s e request).1 ::
      outcomes (one system s e request).2.1 (one system s e request).2.2 rest

/-- Whether the batch has changed the state once the request is applied. -/
def changes (changed : Bool) (request : κ) (outcome : Except ρ α) : Bool :=
  match outcome with
  | .ok _ => changed || system.writes request
  | .error _ => changed
/-- An outcome is held once the batch has changed the state, and released at once before. -/
def settle (q : Queue σ ε κ φ α ρ) (left : List (Nat × κ)) (working : σ) (changed : Bool)
    (held : List (Settled α ρ)) (outcome : Settled α ρ) : Queue σ ε κ φ α ρ :=
  if changed then { q with phase := .applying left working changed (held ++ [outcome]) }
  else { q with phase := .applying left working changed held, released := q.released ++ [outcome] }
/-- The next request of the batch. -/
def applyNext (q : Queue σ ε κ φ α ρ) (circumstance : φ) : Queue σ ε κ φ α ρ :=
  match q.phase with
  | .applying ((number,request) :: left) working changed held =>
    if q.broken then settle q left working changed held (number,.error system.cancelled)
    else
      let done := one system working q.side (request,circumstance)
      settle { q with side := done.2.2, applied := q.applied ++ [(request,circumstance)] } left done.2.1
        (changes system changed request done.1) held (number,done.1)
  | _ => q
def step (q : Queue σ ε κ φ α ρ) : Event κ φ → Queue σ ε κ φ α ρ
  | .submit request =>
    if q.stopping ∨ q.broken ∨ system.capacity ≤ q.submitted.length - q.settled then q
    else { q with
      waiting := q.waiting ++ [(q.submitted.length,request)]
      submitted := q.submitted ++ [request] }
  | .settle => if q.settled < q.released.length then { q with settled := q.settled + 1 } else q
  | .start =>
    match q.phase,q.waiting with
    | .idle,first :: rest => { q with phase := .applying (first :: rest) q.memory false [], waiting := [] }
    | _,_ => q
  | .apply circumstance => applyNext system q circumstance
  | .finish =>
    match q.phase with
    | .applying [] working changed held =>
      if changed then { q with phase := .writing working false held } else { q with phase := .idle }
    | _ => q
  | .replace =>
    match q.phase with
    | .writing working _ held => { q with file := working, phase := .writing working true held }
    | _ => q
  | .written =>
    match q.phase with
    | .writing working true held => { q with memory := working, phase := .idle, released := q.released ++ held }
    | _ => q
  | .failed =>
    match q.phase with
    | .writing _ _ held => { q with
        broken := true
        phase := .idle
        released := q.released ++ held.map (fun outcome => (outcome.1,.error system.unpersisted)) }
    | _ => q
  | .stop => { q with stopping := true }
def run (q : Queue σ ε κ φ α ρ) (events : List (Event κ φ)) : Queue σ ε κ φ α ρ := events.foldl (step system) q

/-! ### One request after another -/

@[simp] theorem after_nil (s : σ) (e : ε) : after system s e [] = (s,e) := rfl
theorem after_append (s : σ) (e : ε) (xs ys : List (κ × φ)) : after system s e (xs ++ ys) =
    after system (after system s e xs).1 (after system s e xs).2 ys := by
  simp [after,List.foldl_append]
theorem after_concat (s : σ) (e : ε) (xs : List (κ × φ)) (x : κ × φ) : after system s e (xs ++ [x]) =
    (one system (after system s e xs).1 (after system s e xs).2 x).2 := by
  rw [after_append]; rfl
theorem outcomes_concat (xs : List (κ × φ)) : ∀ (s : σ) (e : ε) (x : κ × φ), outcomes system s e (xs ++ [x]) =
    outcomes system s e xs ++ [(one system (after system s e xs).1 (after system s e xs).2 x).1] := by
  induction xs with
  | nil => intro s e x; rfl
  | cons y rest ih =>
    intro s e x
    rw [List.cons_append,outcomes,ih]
    rfl
theorem outcomes_length (xs : List (κ × φ)) : ∀ (s : σ) (e : ε), (outcomes system s e xs).length = xs.length := by
  induction xs with
  | nil => intro s e; rfl
  | cons x rest ih => intro s e; simp [outcomes,ih]
theorem one_same {s : σ} {e : ε} {x : κ × φ}
    (quiet : (∃ r, (one system s e x).1 = .error r) ∨ system.writes x.1 = false) : (one system s e x).2.1 = s := by
  unfold one at quiet ⊢
  cases applied : system.apply x.1 x.2 s e with
  | mk outcome left =>
    cases outcome with
    | ok done =>
      rw [applied] at quiet
      rcases quiet with ⟨r,refused⟩ | reads
      · cases refused
      · simp [reads]
    | error r => rfl

theorem refused_same (xs : List (κ × φ)) : ∀ (s : σ) (e : ε) (n : Nat) (r : ρ),
    (outcomes system s e xs)[n]? = some (.error r) →
      (after system s e (xs.take (n + 1))).1 = (after system s e (xs.take n)).1 := by
  induction xs with
  | nil => intro s e n r refused; cases refused
  | cons x rest ih =>
    intro s e n r refused
    cases n with
    | zero =>
      have first : (one system s e x).1 = .error r := by simpa [outcomes] using refused
      exact one_same system (.inl ⟨r,first⟩)
    | succ n => exact ih _ _ n r (by simpa [outcomes] using refused)

/-! ### The invariant -/

def stateAt (s : σ) (e : ε) (q : Queue σ ε κ φ α ρ) (n : Nat) : σ := (after system s e (q.applied.take n)).1
/-- A state that has every change of the first so many requests. -/
def Carries (s : σ) (e : ε) (q : Queue σ ε κ φ α ρ) (told : Nat) (kept : σ) : Prop :=
  ∃ m ≤ q.applied.length, kept = stateAt system s e q m ∧ ∀ j ≤ told, m ≤ j → stateAt system s e q j = kept

def Phase.left : Phase σ κ α ρ → List (Nat × κ)
  | .applying left _ _ _ => left
  | _ => []
def Phase.held : Phase σ κ α ρ → List (Settled α ρ)
  | .idle => []
  | .applying _ _ _ held => held
  | .writing _ _ held => held

/-- What the queue told its callers, and what it kept: `told` outcomes are those of
    the requests one by one, and all others are refusals after a failed write. -/
structure Orderly (s : σ) (e : ε) (q : Queue σ ε κ φ α ρ) (told : Nat) : Prop where
  numbers : (q.released ++ q.phase.held).map (·.1) ++ (q.phase.left ++ q.waiting).map (·.1) =
    List.range q.submitted.length
  requests : ∀ entry ∈ q.phase.left ++ q.waiting, q.submitted[entry.1]? = some entry.2
  arrival : q.applied.map (·.1) = q.submitted.take q.applied.length
  few : told ≤ q.released.length ∧ told ≤ q.applied.length
  same : (q.released.take told).map (·.2) = (outcomes system s e q.applied).take told
  refused : ∀ outcome ∈ q.released.drop told, outcome.2 = .error system.unpersisted ∨
    outcome.2 = .error system.cancelled
  memory : Carries system s e q told q.memory
  file : Carries system s e q told q.file
  saved : q.broken = false → (∀ working held, q.phase ≠ .writing working true held) → q.file = q.memory
  running : q.broken = false → told = q.released.length ∧ q.side = (after system s e q.applied).2 ∧
    (q.released ++ q.phase.held).map (·.2) = outcomes system s e q.applied ∧
    match q.phase with
    | .idle => q.memory = (after system s e q.applied).1
    | .applying _ working changed held => working = (after system s e q.applied).1 ∧
      (changed = false → held = [] ∧ q.memory = working)
    | .writing working replaced _ => working = (after system s e q.applied).1 ∧ (replaced = true → q.file = working)
  concluded : q.broken = true → q.phase = .idle ∨ ∃ left working, q.phase = .applying left working false []

variable {system}
variable {s : σ} {e : ε}

theorem opened_orderly : Orderly system s e (opened s e) 0 := by
  refine ⟨rfl,by simp [opened,Phase.left],rfl,⟨Nat.le_refl _,
    Nat.le_refl _⟩,rfl,by simp [opened],?_,?_,fun _ _ => rfl,?_,?_⟩
  · exact ⟨0,Nat.le_refl _,rfl,fun j _ _ => by simp [stateAt,opened]⟩
  · exact ⟨0,Nat.le_refl _,rfl,fun j _ _ => by simp [stateAt,opened]⟩
  · exact fun _ => ⟨rfl,rfl,rfl,rfl⟩
  · exact fun _ => .inl rfl

theorem carries_last {q : Queue σ ε κ φ α ρ} {told : Nat} (few : told ≤ q.applied.length) :
    Carries system s e q told (after system s e q.applied).1 := by
  refine ⟨q.applied.length,Nat.le_refl _,by simp [stateAt],fun j below above => ?_⟩
  have same : j = q.applied.length := by omega
  simp [stateAt,same]
theorem carries_apply {q q' : Queue σ ε κ φ α ρ} {told : Nat} {kept : σ} {x : κ × φ}
    (carries : Carries system s e q told kept) (few : told ≤ q.applied.length) (next : q'.applied = q.applied ++ [x]) :
    Carries system s e q' told kept := by
  have early : ∀ j ≤ q.applied.length, stateAt system s e q' j = stateAt system s e q j := by
    intro j below
    simp only [stateAt,next,List.take_append_of_le_length below]
  obtain ⟨m,inside,same,later⟩ := carries
  refine ⟨m,by rw [next]; simp; omega,by rw [early m inside,same],fun j below above => ?_⟩
  rw [early j (by omega)]
  exact later j below above
theorem carries_tell {q q' : Queue σ ε κ φ α ρ} {told : Nat} {kept : σ} {x : κ × φ}
    (carries : Carries system s e q told kept) (all : told = q.applied.length) (next : q'.applied = q.applied ++ [x])
    (left : (after system s e (q.applied ++ [x])).1 = (after system s e q.applied).1) :
    Carries system s e q' (told + 1) kept := by
  obtain ⟨m,inside,same,later⟩ := carries_apply carries (le_of_eq all) next
  refine ⟨m,inside,same,fun j below above => ?_⟩
  by_cases old : j ≤ told
  · exact later j old above
  · have last : j = (q.applied ++ [x]).length := by simp; omega
    have kept' : kept = (after system s e q.applied).1 := by
      obtain ⟨n,inside',same',later'⟩ := carries
      by_cases whole : n ≤ told
      · have := later' told (Nat.le_refl _) whole
        rw [← this,stateAt,all,List.take_length]
      · omega
    rw [stateAt,next,last,List.take_length,left,kept']
theorem Carries.same {q q' : Queue σ ε κ φ α ρ} {told : Nat} {kept : σ} (carries : Carries system s e q told kept)
    (same : q'.applied = q.applied) : Carries system s e q' told kept := by
  obtain ⟨m,inside,equal,later⟩ := carries
  refine ⟨m,by rw [same]; exact inside,?_,?_⟩
  · rw [equal]; simp only [stateAt,same]
  · intro j below above
    rw [← later j below above]
    simp only [stateAt,same]

theorem applyNext_orderly {q : Queue σ ε κ φ α ρ} {told : Nat} (orderly : Orderly system s e q told)
    (circumstance : φ) : ∃ told', told ≤ told' ∧ Orderly system s e (applyNext system q circumstance) told' := by
  unfold applyNext
  cases phase : q.phase with
  | idle => exact ⟨told,Nat.le_refl _,orderly⟩
  | writing working replaced held => exact ⟨told,Nat.le_refl _,orderly⟩
  | applying left working changed held =>
    cases left with
    | nil => exact ⟨told,Nat.le_refl _,orderly⟩
    | cons first rest =>
      obtain ⟨number,request⟩ := first
      have numbers := orderly.numbers
      have requests := orderly.requests
      simp only [phase,Phase.held,Phase.left] at numbers requests
      cases broken : q.broken with
      | true =>
        have quiet : changed = false ∧ held = [] := by
          rcases orderly.concluded broken with idle | ⟨left,other,here⟩
          · rw [phase] at idle; cases idle
          · rw [phase] at here; cases here; exact ⟨rfl,rfl⟩
        obtain ⟨rfl,rfl⟩ := quiet
        refine ⟨told,Nat.le_refl _,?_⟩
        simp only [settle,Bool.false_eq_true,if_false,if_true]
        obtain ⟨few,enough⟩ := orderly.few
        refine ⟨?_,?_,orderly.arrival,⟨by simp; omega,enough⟩,?_,?_,orderly.memory,orderly.file,?_,?_,?_⟩
        · simpa [Phase.held,Phase.left] using numbers
        · intro entry member
          exact requests entry
            (by simp only [Phase.left] at member; simp only [List.cons_append,List.mem_cons]; right; exact member)
        · rw [List.take_append_of_le_length few]; exact orderly.same
        · intro outcome member
          rw [List.drop_append_of_le_length few] at member
          rcases List.mem_append.mp member with old | new
          · exact orderly.refused outcome old
          · rw [List.mem_singleton.mp new]; exact .inr rfl
        · exact fun running => by cases broken.symm.trans running
        · exact fun running => by cases broken.symm.trans running
        · exact fun _ => .inr ⟨rest,working,rfl⟩
      | false =>
        obtain ⟨all,side,outs,here⟩ := orderly.running broken
        simp only [phase,Phase.held] at outs here
        obtain ⟨working',unchanged⟩ := here
        have count : (q.released ++ held).length = q.applied.length := by
          rw [← List.length_map (f := fun x : Settled α ρ => x.2),outs,outcomes_length]
        have turn : number = q.applied.length := by
          have here := congrArg (fun ns : List Nat => ns[q.applied.length]?) numbers
          simp only [List.cons_append,List.map_cons] at here
          rw [List.getElem?_append_right (by simpa using le_of_eq count)] at here
          simp only [List.length_map,count,Nat.sub_self,List.getElem?_cons_zero] at here
          have below : q.applied.length < (List.range q.submitted.length).length := by
            rw [← numbers]; simp [← count]
          rw [List.getElem?_range (by simpa using below)] at here
          exact Option.some.inj here
        have arrived : q.submitted[q.applied.length]? = some request := by
          rw [← turn]
          exact requests (number,request) (by simp)
        have arrival : (q.applied ++ [(request,circumstance)]).map (·.1) =
            q.submitted.take (q.applied ++ [(request,circumstance)]).length := by
          rw [List.map_append,orderly.arrival,List.length_append,List.length_singleton,List.take_add_one,arrived]
          rfl
        have state : (one system working q.side (request,circumstance)).2 =
            after system s e (q.applied ++ [(request,circumstance)]) := by
          rw [after_concat,← working',← side]
        have outs' : outcomes system s e (q.applied ++ [(request,circumstance)]) =
            (q.released ++ held).map (·.2) ++ [(one system working q.side (request,circumstance)).1] := by
          rw [outcomes_concat,outs,← working',← side]
        simp only [settle,Bool.false_eq_true,if_false]
        cases held' : changes system changed request (one system working q.side (request,circumstance)).1 with
        | true =>
          simp only [if_true]
          refine ⟨told,Nat.le_refl _,?_,?_,arrival,⟨orderly.few.1,?_⟩,?_,orderly.refused,
            carries_apply orderly.memory orderly.few.2 rfl,carries_apply orderly.file orderly.few.2 rfl,
            fun _ _ => orderly.saved broken (by simp [phase]),?_,?_⟩
          · simpa [Phase.held,Phase.left] using numbers
          · intro entry member
            exact requests entry
              (by simp only [Phase.left] at member; simp only [List.cons_append,List.mem_cons]; right; exact member)
          · have := orderly.few.2; simp; omega
          · dsimp only
            rw [outs',List.map_append,List.append_assoc,all,List.take_length,List.take_append_of_le_length (by simp)]
            simp
          · intro _
            refine ⟨all,by rw [state],?_,by rw [state],fun none => ?_⟩
            · simp only [Phase.held]
              rw [outs',← List.append_assoc,List.map_append]; rfl
            · cases none
          · exact fun concluded => by cases concluded
        | false =>
          have quiet : changed = false ∧ ((∃ r, (one system working q.side (request,circumstance)).1 = .error r) ∨
              system.writes request = false) := by
            cases out : (one system working q.side (request,circumstance)).1 with
            | ok a =>
              rw [out] at held'
              simp only [changes,Bool.or_eq_false_iff] at held'
              exact ⟨held'.1,.inr held'.2⟩
            | error r =>
              rw [out] at held'
              exact ⟨held',.inl ⟨r,rfl⟩⟩
          obtain ⟨none,kept⟩ := unchanged quiet.1
          subst none
          simp only [List.append_nil] at count outs numbers
          have whole : told = q.applied.length := by rw [all,count]
          have left : (after system s e (q.applied ++ [(request,circumstance)])).1 =
              (after system s e q.applied).1 := by
            rw [← state,one_same system quiet.2,working']
          simp only [Bool.false_eq_true,if_false]
          refine ⟨told + 1,by omega,?_,?_,arrival,⟨by simp [all],by simp [whole]⟩,?_,?_,
            carries_tell orderly.memory whole rfl left,carries_tell orderly.file whole rfl left,
            fun _ _ => orderly.saved broken (by simp [phase]),?_,?_⟩
          · simpa [Phase.held,Phase.left] using numbers
          · intro entry member
            exact requests entry
              (by simp only [Phase.left] at member; simp only [List.cons_append,List.mem_cons]; right; exact member)
          · dsimp only
            rw [outs',List.append_nil,all,List.take_of_length_le (by simp),List.take_of_length_le (by simp)]
            simp
          · intro outcome member
            rw [all,List.drop_of_length_le (by simp)] at member
            cases member
          · intro _
            refine ⟨by simp [all],by rw [state],?_,by rw [state],fun _ => ⟨rfl,?_⟩⟩
            · simp only [Phase.held]
              rw [outs']; simp
            · dsimp only
              rw [one_same system quiet.2,kept]
          · exact fun concluded => by cases concluded

section
variable {q : Queue σ ε κ φ α ρ} {told : Nat} {working : σ} {changed replaced : Bool} {held : List (Settled α ρ)}

theorem submit_orderly (orderly : Orderly system s e q told) (request : κ) : Orderly system s e { q with
    waiting := q.waiting ++ [(q.submitted.length,request)]
    submitted := q.submitted ++ [request] } told := by
  refine ⟨?_,?_,?_,orderly.few,orderly.same,orderly.refused,orderly.memory.same rfl,orderly.file.same rfl,orderly.saved,
    orderly.running,orderly.concluded⟩
  · have numbers := orderly.numbers
    simp only [List.map_append,← List.append_assoc,List.length_append,List.length_singleton,List.range_succ]
      at numbers ⊢
    rw [numbers]
    rfl
  · intro entry member
    rw [← List.append_assoc] at member
    rcases List.mem_append.mp member with old | new
    · have found := orderly.requests entry old
      have below := (List.getElem?_eq_some_iff.mp found).1
      dsimp only
      rw [List.getElem?_append_left below]
      exact found
    · rw [List.mem_singleton.mp new]
      simp
  · have arrival := orderly.arrival
    have length := congrArg List.length arrival
    simp only [List.length_map,List.length_take] at length
    dsimp only
    rw [List.take_append_of_le_length (by omega)]
    exact arrival
theorem start_orderly (orderly : Orderly system s e q told) {first : Nat × κ} {rest : List (Nat × κ)}
    (phase : q.phase = .idle) (waiting : q.waiting = first :: rest) :
    Orderly system s e { q with phase := .applying (first :: rest) q.memory false [], waiting := [] } told := by
  have numbers := orderly.numbers
  have requests := orderly.requests
  simp only [phase,waiting,Phase.held,Phase.left,List.nil_append,List.append_nil] at numbers requests
  refine ⟨?_,?_,orderly.arrival,orderly.few,orderly.same,orderly.refused,orderly.memory.same rfl,
    orderly.file.same rfl,fun running _ => orderly.saved running (by simp [phase]),?_,?_⟩
  · simpa [Phase.held,Phase.left] using numbers
  · simpa [Phase.left] using requests
  · intro running
    obtain ⟨all,side,outs,here⟩ := orderly.running running
    simp only [phase,Phase.held] at outs here
    exact ⟨all,side,outs,here,fun _ => ⟨rfl,rfl⟩⟩
  · exact fun _ => .inr ⟨_,_,rfl⟩
theorem write_orderly (orderly : Orderly system s e q told) (phase : q.phase = .applying [] working true held) :
    Orderly system s e { q with phase := .writing working false held } told := by
  have numbers := orderly.numbers
  have requests := orderly.requests
  simp only [phase,Phase.held,Phase.left,List.nil_append] at numbers requests
  refine ⟨?_,?_,orderly.arrival,orderly.few,orderly.same,orderly.refused,
    orderly.memory.same rfl,orderly.file.same rfl,fun running _ => orderly.saved running (by simp [phase]),?_,?_⟩
  · simpa [Phase.held,Phase.left] using numbers
  · simpa [Phase.left] using requests
  · intro running
    obtain ⟨all,side,outs,here⟩ := orderly.running running
    simp only [phase,Phase.held] at outs here
    exact ⟨all,side,outs,here.1,fun none => by cases none⟩
  · intro concluded
    rcases orderly.concluded concluded with idle | ⟨left,other,here⟩
    · rw [phase] at idle; cases idle
    · rw [phase] at here; cases here
theorem rest_orderly (orderly : Orderly system s e q told) (phase : q.phase = .applying [] working false held) :
    Orderly system s e { q with phase := .idle } told := by
  have numbers := orderly.numbers
  have requests := orderly.requests
  simp only [phase,Phase.held,Phase.left,List.nil_append] at numbers requests
  obtain ⟨rfl,kept⟩ : held = [] ∧ (q.broken = false → q.memory = (after system s e q.applied).1) := by
    cases broken : q.broken with
    | true =>
      rcases orderly.concluded broken with idle | ⟨left,other,here⟩
      · rw [phase] at idle; cases idle
      · rw [phase] at here; cases here; exact ⟨rfl,fun running => by cases running⟩
    | false =>
      obtain ⟨_,_,_,here⟩ := orderly.running broken
      simp only [phase] at here
      obtain ⟨nothing,kept⟩ := here.2 trivial
      exact ⟨nothing,fun _ => kept.trans here.1⟩
  refine ⟨?_,?_,orderly.arrival,orderly.few,orderly.same,orderly.refused,orderly.memory.same rfl,orderly.file.same rfl,
    fun running _ => orderly.saved running (by simp [phase]),?_,fun _ => .inl rfl⟩
  · simpa [Phase.held,Phase.left] using numbers
  · simpa [Phase.left] using requests
  · intro running
    obtain ⟨all,side,outs,_⟩ := orderly.running running
    simp only [phase,Phase.held] at outs
    exact ⟨all,side,outs,kept running⟩
theorem Orderly.writing (orderly : Orderly system s e q told) (phase : q.phase = .writing working replaced held) :
    q.broken = false := by
  by_contra concluded
  rcases orderly.concluded (by simpa using concluded) with idle | ⟨left,other,here⟩
  · rw [phase] at idle; cases idle
  · rw [phase] at here; cases here
theorem replace_orderly (orderly : Orderly system s e q told) (phase : q.phase = .writing working replaced held) :
    Orderly system s e { q with file := working, phase := .writing working true held } told := by
  have running := orderly.writing phase
  obtain ⟨all,side,outs,here⟩ := orderly.running running
  have numbers := orderly.numbers
  have requests := orderly.requests
  simp only [phase,Phase.held,Phase.left] at outs here numbers requests
  refine ⟨numbers,requests,orderly.arrival,orderly.few,orderly.same,orderly.refused,orderly.memory.same rfl,?_,
    fun _ between => absurd rfl (between working held),fun _ => ⟨all,side,outs,here.1,fun _ => rfl⟩,fun concluded => ?_⟩
  · dsimp only
    rw [here.1]
    exact (carries_last orderly.few.2).same rfl
  · have stopped : q.broken = true := concluded
    rw [running] at stopped
    cases stopped
theorem written_orderly (orderly : Orderly system s e q told) (phase : q.phase = .writing working true held) :
    told ≤ (q.released ++ held).length ∧ Orderly system s e { q with
      memory := working, phase := .idle, released := q.released ++ held } (q.released ++ held).length := by
  obtain ⟨all,side,outs,here⟩ := orderly.running (orderly.writing phase)
  have numbers := orderly.numbers
  have requests := orderly.requests
  simp only [phase,Phase.held,Phase.left] at outs here numbers requests
  have count : (q.released ++ held).length = q.applied.length := by
    rw [← List.length_map (f := fun x : Settled α ρ => x.2),outs,outcomes_length]
  refine ⟨by rw [all]; simp,?_,?_,orderly.arrival,⟨Nat.le_refl _,le_of_eq count⟩,?_,?_,
    ?_,?_,fun _ _ => here.2 trivial,fun _ => ⟨rfl,side,?_,here.1⟩,fun _ => .inl rfl⟩
  · simpa [Phase.held,Phase.left] using numbers
  · simpa [Phase.left] using requests
  · dsimp only
    rw [List.take_length,outs,List.take_of_length_le (by rw [outcomes_length,count])]
  · intro outcome member
    rw [List.drop_length] at member
    cases member
  · dsimp only
    rw [here.1]
    exact (carries_last (le_of_eq count)).same rfl
  · dsimp only
    rw [here.2 trivial,here.1]
    exact (carries_last (le_of_eq count)).same rfl
  · simpa [Phase.held] using outs
theorem failed_orderly (orderly : Orderly system s e q told) (phase : q.phase = .writing working replaced held) :
    Orderly system s e { q with
      broken := true
      phase := .idle
      released := q.released ++ held.map (fun outcome => (outcome.1,.error system.unpersisted)) } told := by
  obtain ⟨few,enough⟩ := orderly.few
  have numbers := orderly.numbers
  have requests := orderly.requests
  simp only [phase,Phase.held,Phase.left] at numbers requests
  refine ⟨?_,?_,orderly.arrival,⟨by simp; omega,enough⟩,?_,?_,orderly.memory.same rfl,
    orderly.file.same rfl,fun running => (by cases running),fun running => (by cases running),fun _ => .inl rfl⟩
  · simpa [Phase.held,Phase.left,Function.comp_def] using numbers
  · simpa [Phase.left] using requests
  · dsimp only
    rw [List.take_append_of_le_length few]
    exact orderly.same
  · intro outcome member
    rw [List.drop_append_of_le_length few] at member
    rcases List.mem_append.mp member with old | new
    · exact orderly.refused outcome old
    · obtain ⟨other,_,rfl⟩ := List.mem_map.mp new
      exact .inl rfl

theorem step_orderly (orderly : Orderly system s e q told) (event : Event κ φ) :
    ∃ told', told ≤ told' ∧ Orderly system s e (step system q event) told' := by
  have same : ∃ told', told ≤ told' ∧ Orderly system s e q told' := ⟨told,Nat.le_refl _,orderly⟩
  cases event with
  | submit request =>
    unfold step
    dsimp only
    split_ifs
    · exact same
    · exact ⟨told,Nat.le_refl _,submit_orderly orderly request⟩
  | settle =>
    unfold step
    dsimp only
    split_ifs
    · exact ⟨told,Nat.le_refl _,orderly.numbers,orderly.requests,orderly.arrival,orderly.few,orderly.same,
        orderly.refused,orderly.memory.same rfl,orderly.file.same rfl,orderly.saved,orderly.running,orderly.concluded⟩
    · exact same
  | stop =>
    exact ⟨told,Nat.le_refl _,orderly.numbers,orderly.requests,orderly.arrival,orderly.few,orderly.same,
      orderly.refused,orderly.memory.same rfl,orderly.file.same rfl,orderly.saved,orderly.running,orderly.concluded⟩
  | apply circumstance => exact applyNext_orderly orderly circumstance
  | start =>
    unfold step
    dsimp only
    split
    · exact ⟨told,Nat.le_refl _,start_orderly orderly (by assumption) (by assumption)⟩
    · exact same
  | finish =>
    unfold step
    dsimp only
    split
    · rename_i working changed held phase
      cases changed with
      | true => exact ⟨told,Nat.le_refl _,write_orderly orderly phase⟩
      | false => exact ⟨told,Nat.le_refl _,rest_orderly orderly phase⟩
    · exact same
  | replace =>
    unfold step
    dsimp only
    split
    · exact ⟨told,Nat.le_refl _,replace_orderly orderly (by assumption)⟩
    · exact same
  | written =>
    unfold step
    dsimp only
    split
    · exact ⟨_,written_orderly orderly (by assumption)⟩
    · exact same
  | failed =>
    unfold step
    dsimp only
    split
    · exact ⟨told,Nat.le_refl _,failed_orderly orderly (by assumption)⟩
    · exact same
end
/-- Whatever the interleaving of arrivals, applications and writes, the queue stays
    orderly, and never takes back what it told. -/
theorem run_orderly (events : List (Event κ φ)) : ∀ {q : Queue σ ε κ φ α ρ} {told : Nat}, Orderly system s e q told →
    ∃ told', told ≤ told' ∧ Orderly system s e (run system q events) told' := by
  induction events with
  | nil => intro q told orderly; exact ⟨told,Nat.le_refl _,orderly⟩
  | cons event rest ih =>
    intro q told orderly
    obtain ⟨later,more,next⟩ := step_orderly orderly event
    obtain ⟨last,most,final⟩ := ih next
    exact ⟨last,more.trans most,final⟩

/-- After a failed write nothing is pending but refusals. -/
def Phase.Spent (phase : Phase σ κ α ρ) : Prop :=
  phase = .idle ∨ ∃ left working, phase = .applying left working false []
/-- The queue keeps its state, takes no request and refuses what it is still to apply. -/
structure Refuses (system : System σ ε κ φ α ρ) (q q' : Queue σ ε κ φ α ρ) : Prop where
  broken : q'.broken = true
  memory : q'.memory = q.memory
  file : q'.file = q.file
  submitted : q'.submitted = q.submitted
  spent : q'.phase.Spent
  more : ∃ more, q'.released = q.released ++ more ∧ ∀ outcome ∈ more, outcome.2 = .error system.cancelled
theorem broken_step {q : Queue σ ε κ φ α ρ} (broken : q.broken = true) (spent : q.phase.Spent) (event : Event κ φ) :
    Refuses system q (step system q event) := by
  have stay : Refuses system q q := ⟨broken,rfl,rfl,rfl,spent,[],by simp,by simp⟩
  cases event with
  | submit request =>
    have same : step system q (.submit request) = q := by simp [step,broken]
    rw [same]; exact stay
  | settle =>
    unfold step
    dsimp only
    split_ifs
    · exact ⟨broken,rfl,rfl,rfl,spent,[],by simp,by simp⟩
    · exact stay
  | stop => exact ⟨broken,rfl,rfl,rfl,spent,[],by simp [step],by simp⟩
  | start =>
    unfold step
    dsimp only
    split
    · exact ⟨broken,rfl,rfl,rfl,.inr ⟨_,_,rfl⟩,[],by simp,by simp⟩
    · exact stay
  | finish =>
    unfold step
    dsimp only
    split
    · rename_i working changed held here
      have quiet : changed = false := by
        rcases spent with idle | ⟨left,other,phase⟩
        · rw [here] at idle; cases idle
        · rw [here] at phase; cases phase; rfl
      rw [if_neg (by simp [quiet])]
      exact ⟨broken,rfl,rfl,rfl,.inl rfl,[],by simp,by simp⟩
    · exact stay
  | apply circumstance =>
    change Refuses system q (applyNext system q circumstance)
    unfold applyNext
    split
    · rename_i number request left working changed held here
      have quiet : changed = false ∧ held = [] := by
        rcases spent with idle | ⟨left,other,phase⟩
        · rw [here] at idle; cases idle
        · rw [here] at phase; cases phase; exact ⟨rfl,rfl⟩
      rw [if_pos broken,quiet.1,quiet.2,settle,if_neg (by simp)]
      exact ⟨broken,rfl,rfl,rfl,.inr ⟨_,_,rfl⟩,[_],rfl,by simp⟩
    · exact stay
  | replace =>
    rcases spent with idle | ⟨left,working,here⟩
    · have same : step system q .replace = q := by simp [step,idle]
      rw [same]; exact stay
    · have same : step system q .replace = q := by simp [step,here]
      rw [same]; exact stay
  | written =>
    rcases spent with idle | ⟨left,working,here⟩
    · have same : step system q .written = q := by simp [step,idle]
      rw [same]; exact stay
    · have same : step system q .written = q := by simp [step,here]
      rw [same]; exact stay
  | failed =>
    rcases spent with idle | ⟨left,working,here⟩
    · have same : step system q .failed = q := by simp [step,idle]
      rw [same]; exact stay
    · have same : step system q .failed = q := by simp [step,here]
      rw [same]; exact stay
theorem broken_run (events : List (Event κ φ)) : ∀ {q : Queue σ ε κ φ α ρ}, q.broken = true → q.phase.Spent →
    Refuses system q (run system q events) := by
  induction events with
  | nil => intro q broken spent; exact ⟨broken,rfl,rfl,rfl,spent,[],by simp [run],by simp⟩
  | cons event rest ih =>
    intro q broken spent
    obtain ⟨still,memory,file,submitted,next,more,said,refused⟩ := broken_step broken spent event
    obtain ⟨last,memory',file',submitted',final,later,said',refused'⟩ := ih still next
    refine ⟨last,memory'.trans memory,file'.trans file,submitted'.trans submitted,final,more ++ later,?_,?_⟩
    · rw [← List.append_assoc,← said]; exact said'
    · intro outcome member
      exact (List.mem_append.mp member).elim (refused outcome) (refused' outcome)

end
end RelaySwarm.DurableQueue
