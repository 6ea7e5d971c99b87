import RelaySwarm.GuardianRuns

/-!
Who owns the workers. At most one guardian's workers are alive at a time, whose marker is
there (`one_owner`); a publisher that finds its guardian closed in order has left nobody
behind (`close_verified`).
-/
namespace RelaySwarm.Guardians

/-- The marker is there for whoever made it, and for nobody else. -/
structure Owned (s : System) : Prop where
  each : ∀ g x, s.guardians[g]? = some x → Sound (s.marker = some g) x
  known : ∀ g, s.marker = some g → g < s.guardians.length

theorem Moves.others {g g' : Nat} {marker marker' : Option Nat} (moves : Moves g marker marker') (other : g ≠ g') :
    marker = some g' ↔ marker' = some g' := by
  rcases moves with rfl | ⟨rfl,rfl⟩ | ⟨rfl,rfl⟩
  · rfl
  · simpa using other
  · simpa using other

namespace Owned
variable {s : System}

theorem new : Owned .new := ⟨fun _ _ found => by simp [System.new] at found,fun _ none => (nomatch none)⟩
theorem step (owned : Owned s) (event : Event) : Owned (s.step event) := by
  cases event with
  | forks =>
    constructor
    · intro g x found
      have found' : (s.guardians ++ [.new])[g]? = some x := found
      by_cases old : g < s.guardians.length
      · rw [List.getElem?_append_left old] at found'
        exact owned.each g x found'
      · have unowned : ¬ s.marker = some g := fun mine => old (owned.known g mine)
        have fresh : x ∈ [Guardian.new] := by
          rw [List.getElem?_append_right (Nat.le_of_not_lt old)] at found'
          exact List.mem_of_getElem? found'
        rw [List.mem_singleton.mp fresh]
        exact sound_new.congr (iff_of_false not_false unowned)
    · intro g mine
      have less := owned.known g mine
      simp only [System.step,List.length_append]
      omega
  | guardian g act =>
    cases found : s.guardians[g]? with
    | none => simpa only [System.step,found] using owned
    | some x =>
      have keeps := (owned.each g x found).act s.free act
      have inside := (List.getElem?_eq_some_iff.mp found).1
      simp only [System.step,found]
      constructor
      · intro g' x' found'
        by_cases same : g = g'
        · subst same
          rw [List.getElem?_set_self inside] at found'
          cases found'
          exact keeps.sound
        · rw [List.getElem?_set_ne same] at found'
          exact (owned.each g' x' found').congr (keeps.moves.others same)
      · intro g' mine
        rw [List.length_set]
        by_cases same : g = g'
        · exact same ▸ inside
        · exact owned.known g' ((keeps.moves.others same).mpr mine)
  | recovers =>
    simp only [System.step]
    split_ifs with filled
    · exact owned
    · have gone : ∀ x ∈ s.guardians, x.alive = false ∧ Empty x.workers := by
        intro x member
        have none : ¬ (x.alive || x.workers.any (fun w => w.group.alive)) = true :=
          fun here => filled (List.any_eq_true.mpr ⟨x,member,here⟩)
        rw [Bool.or_eq_true,not_or] at none
        refine ⟨by simpa using none.1,fun w working => ?_⟩
        by_contra alive
        exact none.2 (List.any_eq_true.mpr ⟨w,working,by simpa using alive⟩)
      constructor
      · intro g x found
        obtain ⟨dead,empty⟩ := gone x (List.mem_of_getElem? found)
        have disowned := (owned.each g x found).disowned empty (fun alive => (nomatch dead.symm.trans alive))
          (fun alive => (nomatch dead.symm.trans alive))
        exact disowned.congr (by simp)
      · intro g none
        cases none
theorem run (owned : Owned s) (events : List Event) : Owned (s.run events) := by
  induction events generalizing s with
  | nil => exact owned
  | cons event rest ih => exact ih (owned.step event)

end Owned

/-- Whoever forks guardians, crashes, loses messages or cannot write: while a member of one
    worker's group is alive the marker is there and its guardian's own, so that all groups
    with a member left are of one guardian; the guardians that may take workers are no more
    than that one, and it has four on file at most, of different names. -/
theorem one_owner (events : List Event) (g : Nat) (x : Guardian)
    (found : (System.new.run events).guardians[g]? = some x) :
    (∀ w ∈ x.workers, w.group.alive = true → (System.new.run events).marker = some g ∧
      ∀ g' x', (System.new.run events).guardians[g']? = some x' → ∀ w' ∈ x'.workers, w'.group.alive = true → g' = g) ∧
    (x.alive = true → x.marked = true → x.stopping = false → (System.new.run events).marker = some g) ∧
    (names x.workers).length ≤ 4 ∧ (names x.workers).Nodup := by
  have owned := Owned.new.run events
  have mine : ∀ g x, (System.new.run events).guardians[g]? = some x → ∀ w ∈ x.workers, w.group.alive = true →
      (System.new.run events).marker = some g := by
    intro g x found w member alive
    by_contra other
    have dead := (owned.each g x found).gone other w member
    rw [alive] at dead
    cases dead
  have sound := owned.each g x found
  refine ⟨fun w member alive => ?_,fun alive marked idle => ?_,sound.staffed.limit,sound.staffed.distinct⟩
  · have here := mine g x found w member alive
    refine ⟨here,fun g' x' found' w' member' alive' => ?_⟩
    have there := mine g' x' found' w' member' alive'
    exact (Option.some.inj (here.symm.trans there)).symm
  · exact sound.owned alive marked (by rw [sound.uncalled idle]; rfl)
/-- A guardian starts, and a worker is started by it. -/
def served : List Act :=
  List.replicate 9 (.starts .done) ++ [.hears,.spawns,.takes true ⟨0,false,false⟩,.group 0 .begins ⟨0,false,false⟩,
    .group 0 .report ⟨0,false,false⟩,.group 0 (.command none) ⟨0,false,false⟩]
def serving : List Event := .forks :: served.map (.guardian 0)
theorem serving_owned : (System.new.run (serving ++ [.forks,.guardian 0 .crash,.guardian 1 (.starts .done)])).marker =
    some 0 := by
  have found :
      (((System.new.run (serving ++ [.forks,.guardian 0 .crash,.guardian 1 (.starts .done)])).guardians[0]?).bind
      (fun x => x.workers.head?)).map (fun w => w.group.alive) = some true := by decide +kernel
  obtain ⟨w,first,alive⟩ := Option.map_eq_some_iff.mp found
  obtain ⟨x,same,head⟩ := Option.bind_eq_some_iff.mp first
  exact ((one_owner _ 0 x same).1 w (List.mem_of_head? head) alive).1

/-! ### A guardian that is closed in order -/

namespace Guardian
variable {mine : Prop} {x : Guardian}

theorem verified_iff : x.verified = true ↔ x.client.closing = true ∧ x.client.stoppedAcknowledged = true ∧
    x.ended = some true := by
  simp [verified,and_assoc]
theorem verified_over (sound : Sound mine x) (verified : x.verified = true) :
    x.alive = false ∧ x.lease = false ∧ Empty x.workers ∧ ¬ mine := by
  obtain ⟨_,acknowledged,ended⟩ := verified_iff.mp verified
  have stop := sound.stopped (.inr acknowledged)
  have startup := sound.begun (by rw [stop]; rfl)
  refine ⟨?_,sound.released (.inr stop),sound.emptied (by rw [stop]; rfl),fun mine => ?_⟩
  · by_contra alive
    rw [sound.live (by simpa using alive)] at ended
    cases ended
  · rcases sound.left mine with marked | made | failed
    · exact sound.cleared marked (by rw [stop]; rfl) mine
    · rw [startup] at made
      cases made
    · rw [sound.ended ended] at failed
      cases failed
theorem tell_verified (order : Order) (verified : x.verified = true) : (x.tell order).verified = true := by
  unfold tell
  split_ifs <;> exact verified
theorem act_verified (sound : Sound mine x) (verified : x.verified = true) (g : Nat) (free : Bool) (marker : Option Nat)
    (act : Act) : (x.act g free marker act).1.verified = true ∧ (x.act g free marker act).2 = marker := by
  have dead := (verified_over sound verified).1
  obtain ⟨closing,acknowledged,ended⟩ := verified_iff.mp verified
  cases act <;> simp only [Guardian.act,dead,Bool.false_eq_true,false_and,if_false,verified,and_self]
  case takes => split <;> exact ⟨verified,by trivial⟩
  case group i event weather =>
    unfold happens
    split
    · exact ⟨verified,by trivial⟩
    · split <;> simp only [dead,Bool.false_eq_true,if_false] <;> exact ⟨verified,trivial⟩
  case forces => split <;> exact ⟨verified,by trivial⟩
  case exits => split <;> exact ⟨verified,by trivial⟩
  case closes =>
    unfold Guardian.closes
    rw [if_pos closing]
    exact ⟨verified,trivial⟩
  case spawns =>
    unfold Guardian.spawns
    split_ifs
    · simp only [closing,if_true]
      exact ⟨verified_iff.mpr ⟨rfl,acknowledged,ended⟩,trivial⟩
    · exact ⟨verified,trivial⟩
  case kills id value => exact ⟨tell_verified _ verified,trivial⟩
  case hears =>
    split
    · exact ⟨verified,rfl⟩
    · refine ⟨?_,rfl⟩
      unfold Guardian.hears Guardian.closes
      split
      · simp only [closing,if_true]
        exact verified
      · split_ifs
        · exact verified
        · exact verified
      · exact verified_iff.mpr ⟨closing,rfl,ended⟩
      · exact verified
  case leaves => exact ⟨verified,trivial⟩
  case lost => exact ⟨verified,trivial⟩

end Guardian

theorem step_verified {s : System} (owned : Owned s) {g : Nat} {x : Guardian} (found : s.guardians[g]? = some x)
    (verified : x.verified = true) (event : Event) : ∃ x', (s.step event).guardians[g]? = some x' ∧
      x'.verified = true := by
  cases event with
  | forks =>
    refine ⟨x,?_,verified⟩
    simp only [System.step]
    rw [List.getElem?_append_left (List.getElem?_eq_some_iff.mp found).1]
    exact found
  | guardian g' act =>
    cases found' : s.guardians[g']? with
    | none => exact ⟨x,by simpa only [System.step,found'] using found,verified⟩
    | some x' =>
      simp only [System.step,found']
      by_cases same : g' = g
      · subst same
        rw [found] at found'
        cases found'
        have inside := (List.getElem?_eq_some_iff.mp found).1
        rw [List.getElem?_set_self inside]
        exact ⟨_,rfl,(x.act_verified (owned.each g' x found) verified g' s.free s.marker act).1⟩
      · rw [List.getElem?_set_ne same]
        exact ⟨x,found,verified⟩
  | recovers =>
    refine ⟨x,?_,verified⟩
    simp only [System.step]
    split_ifs <;> exact found
/-- A publisher that finds its guardian closed in order has left nobody behind: from then on
    no member of any of its workers' groups is alive, and neither the marker nor the lease is
    its guardian's, whatever others do. -/
theorem close_verified (events later : List Event) (g : Nat) (x : Guardian)
    (found : (System.new.run events).guardians[g]? = some x) (verified : x.verified = true) :
    ∃ x', (System.new.run (events ++ later)).guardians[g]? = some x' ∧ x'.verified = true ∧ x'.alive = false ∧
      x'.lease = false ∧
      (∀ w ∈ x'.workers, w.group.alive = false) ∧ (System.new.run (events ++ later)).marker ≠ some g := by
  have after : ∀ (later : List Event) (s : System), Owned s → ∀ x, s.guardians[g]? = some x → x.verified = true →
      ∃ x', (s.run later).guardians[g]? = some x' ∧ x'.verified = true := by
    intro later
    induction later with
    | nil => exact fun s _ x found verified => ⟨x,found,verified⟩
    | cons event rest ih =>
      intro s owned x found verified
      obtain ⟨x',found',verified'⟩ := step_verified owned found verified event
      exact ih (s.step event) (owned.step event) x' found' verified'
  obtain ⟨x',found',verified'⟩ := after later _ (Owned.new.run events) x found verified
  have whole : System.new.run (events ++ later) = (System.new.run events).run later := List.foldl_append
  have owned := Owned.new.run (events ++ later)
  rw [whole] at owned ⊢
  obtain ⟨dead,lease,empty,others⟩ := Guardian.verified_over (owned.each g x' found') verified'
  exact ⟨x',found',verified',dead,lease,empty,others⟩
/-- Its worker is killed, and the guardian closed. -/
def stopped : List WorkerGroup.Event :=
  [.command none,.command none,.report,.flushed false,.flushed false,.exit,.close,.completes false,.completes false,
    .completes false,.poll]
def unserved : List Act :=
  [.closes,.takes true ⟨0,false,false⟩,.unwinds .done (fun _ => ⟨0,false,false⟩),
    .forces (fun _ => ⟨1500,false,false⟩)] ++
    stopped.map (fun event => .group 0 event ⟨1600,false,false⟩) ++
    .notes 0 false :: List.replicate 7 (.unwinds .done (fun _ => ⟨1700,false,false⟩)) ++ [.hears,.hears,.exits]
def closing : List Event := unserved.map (.guardian 0)
theorem closing_verified : (System.new.run ((serving ++ closing) ++ [.forks])).marker ≠ some 0 := by
  have found : ((System.new.run (serving ++ closing)).guardians[0]?).map (·.verified) = some true := by decide +kernel
  obtain ⟨x,same,verified⟩ := Option.map_eq_some_iff.mp found
  obtain ⟨_,_,_,_,_,_,others⟩ := close_verified (serving ++ closing) [.forks] 0 x same verified
  exact others

end RelaySwarm.Guardians
