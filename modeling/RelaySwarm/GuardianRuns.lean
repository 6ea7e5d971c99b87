import RelaySwarm.Guardians
import Mathlib.Data.List.Forall2

/-!
What holds of every guardian, whoever crashes and whatever fails: while a member of one of
its workers' groups is alive the dirty marker is its own, which it removes when all of them
are found closed.
-/
namespace RelaySwarm.WorkerGroup.State

theorem step_dead {s : State} (dead : s.alive = false) (event : Event) (weather : Weather) :
    (s.step event weather).alive = false := by
  obtain ⟨wrapper,others⟩ := Bool.or_eq_false_iff.mp dead
  have still : ∀ c, (s.controlled c).alive = false := fun _ => dead
  cases event <;> simp only [step,wrapper,Bool.false_eq_true,false_and,and_true,if_false]
  case signal => exact still _
  case report => split <;> exact dead
  case command => split <;> exact dead
  case completes => exact still _
  case flushed => exact dead
  case error => exact still _
  case exit => split_ifs <;> exact dead
  case close => split_ifs <;> exact dead
  case disconnect => split_ifs <;> exact dead
  case poll => exact still _
  case begins => exact dead
  case orphaned => exact dead
  case crash => simp [alive,others]
  case spawned => exact dead
  case refused => exact dead
  case ended => exact dead
  case dies => simp [alive]
  case lost => exact dead

end RelaySwarm.WorkerGroup.State

namespace RelaySwarm.Guardians
open WorkerGroup (Signal Weather)

/-! ### The workers -/

/-- No member of a group is alive. -/
def Empty (workers : List Worker) : Prop := ∀ w ∈ workers, w.group.alive = false
/-- Its group was found closed. -/
def Worker.Resolved (w : Worker) : Prop := ∃ status, w.group.control.settled = some (.resolved status)
def names (workers : List Worker) : List String := (workers.filter (·.filed)).map (·.id)
structure Staffed (workers : List Worker) : Prop where
  groups : ∀ w ∈ workers, WorkerGroup.Sound w.group
  resolved : ∀ w ∈ workers, w.filed = false ∨ w.closed = some true → w.Resolved
  limit : (names workers).length ≤ 4
  distinct : (names workers).Nodup
structure Goes (w w' : Worker) : Prop where
  id : w'.id = w.id
  filed : w'.filed = w.filed
  closed : w'.closed = w.closed
  group : WorkerGroup.Sound w.group → WorkerGroup.Sound w'.group
  dead : w.group.alive = false → w'.group.alive = false
  settled : ∀ outcome, w.group.control.settled = some outcome → w'.group.control.settled = some outcome

theorem Goes.refl (w : Worker) : Goes w w := ⟨rfl,rfl,rfl,fun sound => sound,fun dead => dead,fun _ same => same⟩
theorem Worker.step_goes (w : Worker) (event : WorkerGroup.Event) (weather : Weather) : Goes w (w.step event weather) :=
  ⟨rfl,rfl,rfl,fun sound => sound.step event weather,fun dead => WorkerGroup.State.step_dead dead event weather,
    w.group.step_stays event weather⟩
theorem Goes.resolved {w w' : Worker} (goes : Goes w w') (resolved : w.Resolved) : w'.Resolved := by
  obtain ⟨status,settled⟩ := resolved
  exact ⟨status,goes.settled _ settled⟩

section
variable {before after : List Worker}

theorem names_goes (goes : List.Forall₂ Goes before after) : names after = names before := by
  induction goes with
  | nil => rfl
  | @cons w w' before after first rest ih =>
    unfold names at ih ⊢
    by_cases filed : w.filed = true
    · have filed' : w'.filed = true := first.filed.trans filed
      simp only [List.filter_cons,filed,filed',if_true,List.map_cons,first.id,ih]
    · have filed' : ¬ w'.filed = true := by rw [first.filed]; exact filed
      simp only [List.filter_cons,if_neg filed,if_neg filed',ih]
theorem goes_mem (goes : List.Forall₂ Goes before after) {w' : Worker} (member : w' ∈ after) :
    ∃ w ∈ before, Goes w w' := by
  induction goes with
  | nil => cases member
  | @cons w first before after goes rest ih =>
    rcases List.mem_cons.mp member with rfl | later
    · exact ⟨w,List.mem_cons_self,goes⟩
    · obtain ⟨w,member,goes⟩ := ih later
      exact ⟨w,List.mem_cons_of_mem _ member,goes⟩
theorem goes_at (goes : List.Forall₂ Goes before after) {i : Nat} {w' : Worker} (found : after[i]? = some w') :
    ∃ w, before[i]? = some w ∧ Goes w w' := by
  induction goes generalizing i with
  | nil => simp at found
  | @cons w first before after goes rest ih =>
    cases i with
    | zero =>
      cases found
      exact ⟨w,rfl,goes⟩
    | succ i => exact ih found
theorem staffed_goes (goes : List.Forall₂ Goes before after) (staffed : Staffed before) : Staffed after := by
  refine ⟨fun w' member => ?_,fun w' member done => ?_,?_,?_⟩
  · obtain ⟨w,member,goes⟩ := goes_mem goes member
    exact goes.group (staffed.groups w member)
  · obtain ⟨w,member,goes⟩ := goes_mem goes member
    rw [goes.filed,goes.closed] at done
    exact goes.resolved (staffed.resolved w member done)
  · rw [names_goes goes]
    exact staffed.limit
  · rw [names_goes goes]
    exact staffed.distinct
theorem empty_goes (goes : List.Forall₂ Goes before after) (empty : Empty before) : Empty after := by
  intro w' member
  obtain ⟨w,member,goes⟩ := goes_mem goes member
  exact goes.dead (empty w member)
theorem set_goes (workers : List Worker) {i : Nat} {w w' : Worker} (found : workers[i]? = some w) (goes : Goes w w') :
    List.Forall₂ Goes workers (workers.set i w') := by
  induction workers generalizing i with
  | nil => exact .nil
  | cons first rest ih =>
    cases i with
    | zero =>
      cases found
      exact .cons goes (List.forall₂_same.mpr (fun w _ => Goes.refl w))
    | succ i => exact .cons (Goes.refl first) (ih found)
theorem mapIdx_goes (workers : List Worker) (f : Nat → Worker → Worker) (goes : ∀ i w, Goes w (f i w)) :
    List.Forall₂ Goes workers (workers.mapIdx f) := by
  induction workers generalizing f with
  | nil => exact .nil
  | cons first rest ih =>
    rw [List.mapIdx_cons]
    exact .cons (goes 0 first) (ih _ (fun i w => goes (i + 1) w))

end

theorem names_set (workers : List Worker) {i : Nat} {w w' : Worker} (found : workers[i]? = some w) (id : w'.id = w.id)
    (filed : w'.filed = true → w.filed = true) : (names (workers.set i w')).Sublist (names workers) := by
  induction workers generalizing i with
  | nil => exact List.Sublist.refl _
  | cons first rest ih =>
    cases i with
    | zero =>
      cases found
      rw [List.set_cons_zero]
      unfold names
      by_cases now : w'.filed = true
      · simp [now,filed now,id]
      · rw [List.filter_cons,if_neg now]
        exact ((List.sublist_cons_self _ _).filter _).map _
    | succ i =>
      rw [List.set_cons_succ]
      unfold names at ih ⊢
      by_cases now : first.filed = true
      · simpa [now] using ih found
      · simpa [now] using ih found
theorem Staffed.empty {workers : List Worker} (staffed : Staffed workers)
    (closed : ∀ w ∈ workers, w.filed = true → w.closed = some true) : Empty workers := by
  intro w member
  have resolved : w.Resolved := by
    by_cases filed : w.filed = true
    · exact staffed.resolved w member (.inr (closed w member filed))
    · exact staffed.resolved w member (.inl (by simpa using filed))
  obtain ⟨status,settled⟩ := resolved
  exact ((staffed.groups w member).resolved status settled).1

/-! ### One guardian -/

namespace Startup

/-- The marker is being made, or its making failed. -/
def makes : Startup → Bool
  | .writing | .syncing | .closing true => true
  | _ => false
/-- The marker is made. -/
def past : Startup → Bool
  | .closing false | .openingDirectory | .syncingDirectory | .closingDirectory _ => true
  | _ => false

end Startup

namespace Stop

/-- The workers are being stopped, or that is over. -/
def begun : Stop → Bool
  | .uncalled | .waiting => false
  | _ => true
/-- A marker that was made is there. -/
def keeps : Stop → Bool
  | .uncalled | .waiting | .draining _ | .removing => true
  | _ => false
/-- All workers were found closed. -/
def emptied : Stop → Bool
  | .removing | .openingDirectory | .syncingDirectory | .closingDirectory _ | .releasing false | .acknowledging
  | .finished false => true
  | _ => false
/-- A marker that was made is removed. -/
def cleared : Stop → Bool
  | .openingDirectory | .syncingDirectory | .closingDirectory _ | .releasing false | .acknowledging | .finished false =>
    true
  | _ => false

end Stop

/-- What holds of a guardian, by whether the marker is there and its own. -/
structure Sound (mine : Prop) (x : Guardian) : Prop where
  staffed : Staffed x.workers
  admitted : x.workers ≠ [] → x.marked = true
  announced : .ready ∈ x.up ∨ x.client.startupComplete = true ∨ (∃ id, .start id ∈ x.down) →
    x.startup = .finished ∧ x.marked = true
  passed : x.startup.past = true → x.marked = true
  marked : x.marked = true → x.startup.past = true ∨ x.startup = .finished
  uncalled : x.stopping = false → x.stop = .uncalled
  begun : x.stop.begun = true → x.startup = .finished
  drains : ∀ live, x.stop = .draining live → ∀ i w, x.workers[i]? = some w → w.filed = true → i ∈ live
  emptied : x.stop.emptied = true → Empty x.workers
  removing : x.stop = .removing → x.marked = true
  owned : x.alive = true → x.marked = true → x.stop.keeps = true → mine
  making : x.alive = true → x.startup = .writing ∨ x.startup = .syncing → mine
  gone : ¬ mine → Empty x.workers
  cleared : x.marked = true → x.stop.cleared = true → ¬ mine
  left : mine → x.marked = true ∨ x.startup.makes = true ∨ x.exitCode = true
  stopped : .stopped ∈ x.up ∨ x.client.stoppedAcknowledged = true → x.stop = .finished false
  released : x.stop = .acknowledging ∨ x.stop = .finished false → x.lease = false
  ended : x.ended = some true → x.exitCode = false
  live : x.alive = true → x.ended = none

theorem sound_new : Sound False .new := by
  constructor <;> simp [Guardian.new,Client.new,Empty,Startup.past,Stop.begun,Stop.emptied,Stop.cleared]
  exact ⟨by simp,by simp,by simp [names],by simp [names]⟩

namespace Sound
variable {mine : Prop} {x : Guardian}

theorem staffs (sound : Sound mine x) {workers : List Worker} (goes : List.Forall₂ Goes x.workers workers) :
    Sound mine { x with workers } := by
  refine { sound with
    staffed := staffed_goes goes sound.staffed, admitted := fun filled => sound.admitted ?_
    drains := fun live draining i w found filed => ?_, emptied := fun emptied => empty_goes goes (sound.emptied emptied)
    gone := fun gone => empty_goes goes (sound.gone gone) }
  · intro none
    rw [none] at goes
    cases goes
    exact filled rfl
  · obtain ⟨before,found,goes⟩ := goes_at goes found
    exact sound.drains live draining i before found (goes.filed.symm.trans filed)
theorem sends (sound : Sound mine x) (replies : List Reply) (ready : .ready ∉ replies) (stopped : .stopped ∉ replies) :
    Sound mine (x.send replies) := by
  unfold Guardian.send
  split_ifs
  · refine { sound with announced := fun told => sound.announced ?_, stopped := fun told => sound.stopped ?_ }
    · rcases told with said | rest
      · exact .inl ((List.mem_append.mp said).resolve_right ready)
      · exact .inr rest
    · exact told.imp_left (fun said => (List.mem_append.mp said).resolve_right stopped)
  · exact sound
theorem calls (sound : Sound mine x) : Sound mine x.calls := by
  unfold Guardian.calls
  split_ifs with uncalled
  · refine { sound with
      uncalled := fun none => (nomatch none), begun := fun none => (nomatch none), drains :=
        fun _ none => (nomatch none)
      emptied := fun none => (nomatch none), removing := fun none => (nomatch none)
      owned := fun alive marked _ => sound.owned alive marked ?_, cleared := fun _ none => (nomatch none)
      stopped := fun said => ?_, released := by simp }
    · rw [uncalled]
      rfl
    · have finished := sound.stopped said
      rw [uncalled] at finished
      cases finished
  · exact sound
theorem prepares (sound : Sound mine x) (marked : x.stopping = true ∨ x.marked = true)
    (made : x.startup.makes = false) :
    Sound mine x.prepares := by
  have finished : Sound mine { x with startup := .finished } := { sound with
    announced := fun told => ⟨rfl,(sound.announced told).2⟩, passed := fun none => (nomatch none), marked :=
      fun _ => .inr rfl
    begun := fun _ => rfl, making := by simp
    left := fun mine => (sound.left mine).imp_right (fun left => .inr (left.resolve_left (by simp [made]))) }
  unfold Guardian.prepares
  dsimp only
  by_cases stops : x.stopping = true ∨ x.connected = false
  · rw [if_pos stops]
    exact finished.calls
  · rw [if_neg stops]
    have marked' : x.marked = true := marked.resolve_left (not_or.mp stops).1
    unfold Guardian.send
    split_ifs
    · refine { finished with announced := fun _ => ⟨rfl,marked'⟩, stopped := fun told => sound.stopped ?_ }
      exact told.imp_left (fun said => (List.mem_append.mp said).resolve_right (by simp))
    · exact finished
theorem fails (sound : Sound mine x) (alive : x.alive = true) : Sound mine x.fails := by
  have finished : Sound mine { x with startup := .finished, exitCode := true } := { sound with
    announced := fun told => ⟨rfl,(sound.announced told).2⟩, passed := fun none => (nomatch none), marked :=
      fun _ => .inr rfl
    begun := fun _ => rfl, making := by simp
    left := fun _ => .inr (.inr rfl)
    ended := fun ended => (nomatch (sound.live alive).symm.trans ended) }
  exact (finished.sends [.failed] (by simp) (by simp)).calls

end Sound

/-- A guardian makes the marker where there is none, and removes its own. -/
def Moves (g : Nat) (marker marker' : Option Nat) : Prop :=
  marker' = marker ∨ marker = none ∧ marker' = some g ∨ marker = some g ∧ marker' = none
/-- The guardian and the marker after something that concerns it. -/
structure Keeps (g : Nat) (marker : Option Nat) (after : Guardian × Option Nat) : Prop where
  sound : Sound (after.2 = some g) after.1
  moves : Moves g marker after.2

theorem Stop.cleared_begun {stop : Stop} (cleared : stop.cleared = true) : stop.begun = true := by
  cases stop <;> first | rfl | cases cleared

namespace Sound
variable {g : Nat} {marker : Option Nat} {mine : Prop} {x : Guardian}

theorem keeps {x' : Guardian} (sound : Sound (marker = some g) x') : Keeps g marker (x',marker) := ⟨sound,.inl rfl⟩
theorem starting (sound : Sound mine x) (isOpen : x.startup ≠ .finished) :
    ¬ (.ready ∈ x.up ∨ x.client.startupComplete = true ∨ ∃ id, .start id ∈ x.down) ∧ x.stop.begun = false := by
  constructor
  · intro told
    exact isOpen (sound.announced told).1
  · by_contra begun
    exact isOpen (sound.begun (by simpa using begun))
theorem phase (sound : Sound mine x) (next : Startup) (isOpen : x.startup ≠ .finished)
    (past : next.past = true → x.marked = true) (marked : x.marked = true → next.past = true)
    (making : next = .writing ∨ next = .syncing → mine)
    (left : mine → x.marked = true ∨ next.makes = true ∨
      x.exitCode = true) : Sound mine { x with startup := next } := by
  obtain ⟨untold,idle⟩ := sound.starting isOpen
  exact { sound with
    announced := fun told => absurd told untold, passed := past, marked := fun known => .inl (marked known)
    begun := fun begun => (nomatch idle.symm.trans begun), making := fun _ => making, left := left }
theorem starts (sound : Sound (marker = some g) x) (alive : x.alive = true) (free : Bool) (outcome : Outcome) :
    Keeps g marker (x.starts g free marker outcome) := by
  have unmarked (now : Startup) (startup : x.startup = now) (past : now.past = false) (isOpen : now ≠ .finished) :
      ¬ x.marked = true := by
    intro marked
    rcases sound.marked marked with made | finished
    · rw [startup,past] at made
      cases made
    · exact isOpen (startup.symm.trans finished)
  have left (now : Startup) (startup : x.startup = now) (makes : now.makes = false) (next : Startup) :
      marker = some g → x.marked = true ∨ next.makes = true ∨ x.exitCode = true := by
    intro mine
    rcases sound.left mine with marked | made | failed
    · exact .inl marked
    · rw [startup,makes] at made
      cases made
    · exact .inr (.inr failed)
  unfold Guardian.starts
  by_cases isOpen : x.startup = .finished
  · rw [isOpen]
    exact sound.keeps
  cases startup : x.startup with
  | acquiring =>
    dsimp only
    cases outcome with
    | done =>
      refine keeps ?_
      split_ifs
      · have leased : Sound (marker = some g) { x with lease := true } := { sound with
          released := fun done => by
            have idle := (sound.starting isOpen).2
            rcases done with done | done <;> rw [show x.stop = _ from done] at idle <;> cases idle }
        exact leased.phase .checking isOpen (fun none => (nomatch none))
          (fun marked => absurd marked (unmarked _ startup rfl (by decide))) (by simp)
          (left _ startup rfl _)
      · exact sound
    | busy =>
      refine keeps ?_
      split_ifs with stopping
      · exact sound.prepares (.inl stopping) (by rw [startup]; rfl)
      · exact sound
    | failed => exact (sound.fails alive).keeps
  | checking =>
    refine keeps ?_
    split_ifs
    · exact sound.phase .creating isOpen (fun none => (nomatch none))
        (fun marked => absurd marked (unmarked _ startup rfl (by decide))) (by simp)
        (left _ startup rfl _)
    · exact sound.fails alive
  | creating =>
    have fresh := unmarked _ startup rfl (by decide)
    dsimp only
    split_ifs with made
    · obtain ⟨untold,idle⟩ := sound.starting isOpen
      have none : Empty x.workers := sound.gone (by rw [made.2]; simp)
      refine ⟨{ sound with
        announced := fun told => absurd told untold, passed := fun none => (nomatch none), marked :=
          fun marked => absurd marked fresh
        begun := fun begun => (nomatch idle.symm.trans begun), owned := fun _ _ _ => rfl, making := fun _ _ => rfl
        gone := fun _ => none, cleared := fun marked => absurd marked fresh, left := fun _ => .inr (.inl rfl) },
        .inr (.inl ⟨made.2,rfl⟩)⟩
    · exact (sound.fails alive).keeps
  | writing =>
    have mine := sound.making alive (.inl startup)
    have fresh := unmarked _ startup rfl (by decide)
    refine keeps (sound.phase _ isOpen ?_ (fun marked => absurd marked fresh) (fun _ => mine) (fun _ => .inr (.inl ?_)))
    · split_ifs <;> exact fun none => (nomatch none)
    · split_ifs <;> rfl
  | syncing =>
    have mine := sound.making alive (.inr startup)
    have fresh := unmarked _ startup rfl (by decide)
    refine keeps ?_
    split_ifs
    · obtain ⟨untold,idle⟩ := sound.starting isOpen
      refine { sound with
        admitted := fun _ => rfl, announced := fun told => absurd told untold, passed := fun _ => rfl, marked :=
          fun _ => .inl rfl
        begun := fun begun => (nomatch idle.symm.trans begun), removing := fun _ => rfl, owned := fun _ _ _ => mine
        making := by simp
        cleared := fun _ cleared => (nomatch idle.symm.trans (Stop.cleared_begun cleared)), left := fun _ => .inl rfl }
    · exact sound.phase _ isOpen (fun none => (nomatch none)) (fun marked => absurd marked fresh) (fun _ => mine)
        (fun _ => .inr (.inl rfl))
  | closing failed =>
    refine keeps ?_
    split_ifs with closes
    · have marked : x.marked = true := sound.passed (by rw [startup,closes.2]; rfl)
      exact sound.phase _ isOpen (fun _ => marked) (fun _ => rfl) (by simp)
        (fun _ => .inl marked)
    · exact sound.fails alive
  | openingDirectory =>
    have marked : x.marked = true := sound.passed (by rw [startup]; rfl)
    refine keeps ?_
    split_ifs
    · exact sound.phase _ isOpen (fun _ => marked) (fun _ => rfl) (by simp)
        (fun _ => .inl marked)
    · exact sound.fails alive
  | syncingDirectory =>
    have marked : x.marked = true := sound.passed (by rw [startup]; rfl)
    exact keeps (sound.phase _ isOpen (fun _ => marked) (fun _ => rfl) (by simp)
      (fun _ => .inl marked))
  | closingDirectory failed =>
    have marked : x.marked = true := sound.passed (by rw [startup]; rfl)
    refine keeps ?_
    split_ifs
    · exact sound.prepares (.inr marked) (by rw [startup]; rfl)
    · exact sound.fails alive
  | finished => exact absurd startup isOpen

theorem congr {mine' : Prop} (sound : Sound mine x) (same : mine ↔ mine') : Sound mine' x := by
  rw [← propext same]
  exact sound
theorem disowned (sound : Sound mine x) (empty : Empty x.workers)
    (owned : x.alive = true → x.marked = true → x.stop.keeps = true → False)
    (making : x.alive = true → x.startup = .writing ∨ x.startup = .syncing → False) : Sound False x :=
  { sound with owned, making, gone := fun _ => empty, cleared := fun _ _ none => none, left := fun none => none.elim }
/-- The stop comes to another of its stages. -/
theorem stage (sound : Sound mine x) (next : Stop) (begun : x.stop.begun = true) (isOpen : x.stop ≠ .finished false)
    (drained : ∀ live, next ≠ .draining live) (emptied : next.emptied = true → Empty x.workers)
    (removing : next = .removing → x.marked = true)
    (owned : x.alive = true → x.marked = true → next.keeps = true → mine)
    (cleared : x.marked = true → next.cleared = true → ¬ mine)
    (released : next = .acknowledging ∨ next = .finished false →
      x.lease = false) : Sound mine { x with stop := next } := by
  have stopping : x.stopping = true := by
    by_contra idle
    rw [sound.uncalled (by simpa using idle)] at begun
    cases begun
  exact { sound with
    uncalled := fun idle => (nomatch idle.symm.trans stopping), begun := fun _ => sound.begun begun
    drains := fun live draining => absurd draining (drained live), emptied := emptied, removing :=
      removing, owned := owned
    cleared := cleared, stopped := fun said => absurd (sound.stopped said) isOpen, released := released }
theorem finishing (sound : Sound mine x) (next : Stop) (begun : x.stop.begun = true) (isOpen : x.stop ≠ .finished false)
    (exceeds : next.begun = true ∧ next.emptied = false ∧ next.keeps = false ∧ next.cleared = false) :
    Sound mine { x with stop := next } := by
  obtain ⟨_,emptied,keeps,cleared⟩ := exceeds
  refine sound.stage next begun isOpen ?_ ?_ ?_ ?_ ?_ ?_
  · rintro live rfl
    cases keeps
  · intro claimed
    cases emptied.symm.trans claimed
  · rintro rfl
    cases keeps
  · intro _ _ claimed
    cases keeps.symm.trans claimed
  · intro _ claimed
    cases cleared.symm.trans claimed
  · rintro (rfl | rfl) <;> cases emptied
theorem goesOn (sound : Sound mine x) (next : Stop) (begun : x.stop.begun = true) (isOpen : x.stop ≠ .finished false)
    (now : x.stop.emptied = true ∧ x.stop.cleared = true) (drained : ∀ live, next ≠ .draining live)
    (keeps : next.keeps = false)
    (removing : next ≠ .removing) (released : next = .acknowledging ∨ next = .finished false → x.lease = false) :
    Sound mine { x with stop := next } := by
  refine sound.stage next begun isOpen drained (fun _ => sound.emptied now.1) (fun same => absurd same removing) ?_
    (fun marked _ => sound.cleared marked now.2) released
  intro _ _ claimed
  cases keeps.symm.trans claimed
theorem breaks (sound : Sound mine x) (alive : x.alive = true) (begun : x.stop.begun = true)
    (isOpen : x.stop ≠ .finished false) :
    Sound mine x.breaks := by
  have failed : Sound mine { x with exitCode := true } := { sound with
    left := fun _ => .inr (.inr rfl), ended := fun ended => (nomatch (sound.live alive).symm.trans ended) }
  have finished :=
    (failed.finishing (.finished true) begun isOpen ⟨rfl,rfl,rfl,rfl⟩).sends [.failed] (by simp) (by simp)
  unfold Guardian.breaks
  dsimp only
  split_ifs
  · exact { finished with }
  · exact finished
theorem live_mem {i : Nat} {w : Worker} (found : x.workers[i]? = some w) (filed : w.filed = true) : i ∈ x.live := by
  refine List.mem_map.mpr ⟨(w,i),List.mem_filter.mpr ⟨?_,filed⟩,rfl⟩
  exact List.mem_zipIdx_iff_getElem?.mpr found
theorem signals (sound : Sound mine x) (live : List Nat) (value : Signal) (weather : Nat → Weather) :
    Sound mine (x.signals live value weather) := by
  refine sound.staffs (mapIdx_goes _ _ (fun i w => ?_))
  split_ifs
  · exact w.step_goes _ _
  · exact .refl w
theorem midway {x : Guardian} {now : Stop} (stop : x.stop = now) (begun : now.begun = true)
    (isOpen : now ≠ .finished false) :
    x.stop.begun = true ∧ x.stop ≠ .finished false := by
  rw [stop]
  exact ⟨begun,isOpen⟩
theorem unwinds (sound : Sound (marker = some g) x) (alive : x.alive = true) (outcome : Outcome)
    (weather : Nat → Weather) :
    Keeps g marker (x.unwinds marker outcome weather) := by
  unfold Guardian.unwinds
  cases stop : x.stop with
  | uncalled => exact sound.keeps
  | waiting =>
    dsimp only
    split_ifs with startup
    · have signalled := sound.signals x.live .term weather
      have goes : List.Forall₂ Goes x.workers (x.signals x.live .term weather).workers := by
        refine mapIdx_goes _ _ (fun i w => ?_)
        split_ifs
        · exact w.step_goes _ _
        · exact .refl w
      have waits : (x.signals x.live .term weather).stop = .waiting := stop
      refine keeps { signalled with
        uncalled := fun idle => ?_, begun := fun _ => startup, drains := fun live draining i w found filed => ?_
        emptied := fun none => (nomatch none), removing := fun none => (nomatch none)
        owned := fun alive marked _ => signalled.owned alive marked (by rw [waits]; rfl), cleared :=
          fun _ none => (nomatch none)
        stopped := fun said => ?_, released := by simp }
      · have uncalled := signalled.uncalled idle
        rw [waits] at uncalled
        cases uncalled
      · cases draining
        obtain ⟨before,found,goes⟩ := goes_at goes found
        exact live_mem found (goes.filed.symm.trans filed)
      · have finished := signalled.stopped said
        rw [waits] at finished
        cases finished
    · exact sound.keeps
  | draining live =>
    obtain ⟨begun,isOpen⟩ := midway stop rfl (by simp)
    dsimp only
    by_cases waits : none ∈ live.map (fun i => (x.workers[i]?).bind (·.closed))
    · rw [if_pos waits]
      exact sound.keeps
    rw [if_neg waits]
    by_cases failed : some false ∈ live.map (fun i => (x.workers[i]?).bind (·.closed))
    · rw [if_pos failed]
      exact (sound.finishing (.releasing true) begun isOpen ⟨rfl,rfl,rfl,rfl⟩).keeps
    rw [if_neg failed]
    have empty : Empty x.workers := by
      refine sound.staffed.empty (fun w member filed => ?_)
      obtain ⟨i,found⟩ := List.mem_iff_getElem?.mp member
      have known : w.closed ∈ live.map (fun i => (x.workers[i]?).bind (·.closed)) :=
        List.mem_map.mpr ⟨i,sound.drains live stop i w found filed,by rw [found]; rfl⟩
      cases closed : w.closed with
      | none => exact absurd (closed ▸ known) waits
      | some clean =>
        cases clean with
        | true => rfl
        | false => exact absurd (closed ▸ known) failed
    refine keeps ?_
    split_ifs with marked
    · refine sound.stage .removing begun isOpen (fun _ => by simp) (fun _ => empty)
        (fun _ => marked) ?_ (fun _ none => (nomatch none))
        (by simp)
      exact fun alive marked _ => sound.owned alive marked (by rw [stop]; rfl)
    · exact sound.stage (.releasing false) begun isOpen (fun _ => by simp) (fun _ => empty) (fun none => (nomatch none))
        (fun _ _ none => (nomatch none)) (fun claimed => absurd claimed marked) (by simp)
  | removing =>
    obtain ⟨begun,isOpen⟩ := midway stop rfl (by simp)
    have empty := sound.emptied (by rw [stop]; rfl)
    have mine := sound.owned alive (sound.removing stop) (by rw [stop]; rfl)
    dsimp only
    split_ifs with removed
    · have there := sound.finishing (.releasing true) begun isOpen ⟨rfl,rfl,rfl,rfl⟩
      have others : Sound False { x with stop := .releasing true } :=
        there.disowned empty (fun _ _ none => (nomatch none))
        (fun _ making => by rw [show x.startup = _ from sound.begun begun] at making; simp at making)
      have next :=
        others.stage .openingDirectory rfl (by simp) (fun _ => by simp) (fun _ => empty) (fun none => (nomatch none))
        (fun _ _ none => (nomatch none)) (fun _ _ none => none) (by simp)
      have gone : (none = some g) ↔ False := by simp
      exact ⟨next.congr gone.symm,.inr (.inr ⟨mine,rfl⟩)⟩
    · exact (sound.finishing (.releasing true) begun isOpen ⟨rfl,rfl,rfl,rfl⟩).keeps
  | openingDirectory =>
    obtain ⟨begun,isOpen⟩ := midway stop rfl (by simp)
    refine keeps ?_
    split_ifs
    · exact sound.goesOn .syncingDirectory begun isOpen (by rw [stop]; exact ⟨rfl,rfl⟩) (fun _ => by simp)
        rfl (by simp) (by simp)
    · exact sound.finishing _ begun isOpen ⟨rfl,rfl,rfl,rfl⟩
  | syncingDirectory =>
    obtain ⟨begun,isOpen⟩ := midway stop rfl (by simp)
    exact keeps (sound.goesOn _ begun isOpen (by rw [stop]; exact ⟨rfl,rfl⟩) (fun _ => by simp) rfl (by simp) (by simp))
  | closingDirectory failed =>
    obtain ⟨begun,isOpen⟩ := midway stop rfl (by simp)
    exact keeps (sound.goesOn _ begun isOpen (by rw [stop]; exact ⟨rfl,rfl⟩) (fun _ => by simp) rfl (by simp) (by simp))
  | releasing failed =>
    obtain ⟨begun,isOpen⟩ := midway stop rfl (by simp)
    have freed : Sound (marker = some g) { x with lease := false } := { sound with released := fun _ => rfl }
    dsimp only
    cases outcome with
    | done =>
      refine keeps ?_
      split_ifs with bad
      · exact freed.breaks alive begun isOpen
      · have fine : failed = false := by simpa using bad
        exact freed.goesOn .acknowledging begun isOpen (by rw [show x.stop = _ from stop,fine]; exact ⟨rfl,rfl⟩)
          (fun _ => by simp) rfl
          (by simp) (fun _ => rfl)
    | busy => exact (freed.breaks alive begun isOpen).keeps
    | failed => exact (sound.breaks alive begun isOpen).keeps
  | acknowledging =>
    obtain ⟨begun,isOpen⟩ := midway stop rfl (by simp)
    have finished :=
      sound.goesOn (.finished false) begun isOpen (by rw [stop]; exact ⟨rfl,rfl⟩) (fun _ => by simp) rfl (by simp)
      (fun _ => sound.released (.inl stop))
    refine keeps ?_
    unfold Guardian.send
    split_ifs
    · refine { finished with announced := fun told => sound.announced ?_, stopped := fun _ => rfl }
      exact told.imp_left (fun said => (List.mem_append.mp said).resolve_right (by simp))
    · exact { finished with }
  | finished failed => exact sound.keeps

/-! ### What it is told, and what happens to its groups -/

theorem takes (sound : Sound mine x) (alive : x.alive = true) {order : Order} {down : List Order}
    (first : x.down = order :: down)
    (pid : Bool) (weather : Weather) : Sound mine (({ x with down } : Guardian).takes order pid weather) := by
  have sent : order ∈ x.down := by rw [first]; exact List.mem_cons_self
  have taken : Sound mine { x with down } := { sound with
    announced := fun told => sound.announced (told.imp_right (fun rest => rest.imp_right (fun ⟨id,member⟩ =>
      ⟨id,by rw [first]; exact List.mem_cons_of_mem _ member⟩))) }
  unfold Guardian.takes
  by_cases stops : order = .stop
  · rw [if_pos stops]
    exact taken.calls
  rw [if_neg stops]
  by_cases deaf : x.stopping = true ∨ x.lease = false ∨ x.connected = false
  · rw [if_pos deaf]
    exact taken
  rw [if_neg deaf]
  cases order with
  | stop => exact taken
  | kill id value =>
    refine taken.staffs (List.forall₂_map_right_iff.mpr (List.forall₂_same.mpr (fun w _ => ?_)))
    split_ifs
    · exact w.step_goes _ _
    · exact .refl w
  | start id =>
    dsimp only
    by_cases refused : (x.workers.filter (·.filed)).any (·.id = id) = true ∨
        4 ≤ (x.workers.filter (·.filed)).length
    · rw [if_pos refused]
      exact taken
    rw [if_neg refused]
    obtain ⟨fresh,room⟩ := not_or.mp refused
    have marked := (sound.announced (.inr (.inr ⟨id,sent⟩))).2
    have idle := sound.uncalled (by simpa using (not_or.mp deaf).1)
    have mine' := sound.owned alive marked (by rw [idle]; rfl)
    have names' : names (x.workers ++ [⟨id,true,none,.new pid⟩]) = names x.workers ++ [id] := by simp [names]
    refine { taken with
      staffed := ⟨?_,?_,?_,?_⟩, admitted := fun _ => marked, drains := fun live draining => ?_, emptied :=
        fun emptied => ?_
      gone := fun gone => absurd mine' gone }
    · intro w member
      rcases List.mem_append.mp member with old | new
      · exact sound.staffed.groups w old
      · rw [List.mem_singleton.mp new]
        exact WorkerGroup.sound_new pid
    · intro w member done
      rcases List.mem_append.mp member with old | new
      · exact sound.staffed.resolved w old done
      · rw [List.mem_singleton.mp new] at done
        simp at done
    · rw [names',List.length_append]
      unfold names
      rw [List.length_map]
      exact Nat.succ_le_of_lt (Nat.lt_of_not_le room)
    · rw [names']
      refine List.nodup_append.mpr ⟨sound.staffed.distinct,List.nodup_cons.mpr ⟨by simp,List.nodup_nil⟩,?_⟩
      intro name old name' new
      rw [List.mem_singleton.mp new]
      rintro rfl
      obtain ⟨w,member,same⟩ := List.mem_map.mp old
      exact fresh (List.any_eq_true.mpr ⟨w,member,by simpa using same⟩)
    · rw [show x.stop = _ from draining] at idle
      cases idle
    · rw [show (x.stop).emptied = true ↔ False by rw [idle]; decide] at emptied
      exact emptied.elim
theorem enters (sound : Sound mine x) {i : Nat} {w : Worker} (w' : Worker) (found : x.workers[i]? = some w)
    (group : w'.group = w.group) (id : w'.id = w.id) (filed : w'.filed = true → w.filed = true)
    (resolved : w'.filed = false ∨ w'.closed = some true →
      w.Resolved) : Sound mine { x with workers := x.workers.set i w' } := by
  have was : ∀ other ∈ x.workers.set i w', other = w' ∨ other ∈ x.workers :=
    fun other member => (List.mem_or_eq_of_mem_set member).symm
  have member := List.mem_of_getElem? found
  have empty : Empty x.workers → Empty (x.workers.set i w') := by
    intro empty other changed
    rcases was other changed with rfl | old
    · rw [group]
      exact empty w member
    · exact empty other old
  have less : (names (x.workers.set i w')).Sublist (names x.workers) := names_set x.workers found id filed
  refine { sound with
    staffed := ⟨?_,?_,less.length_le.trans sound.staffed.limit,sound.staffed.distinct.sublist less⟩
    admitted := fun _ => sound.admitted (List.ne_nil_of_mem member), drains :=
      fun live draining j other here filed' => ?_
    emptied := fun emptied => empty (sound.emptied emptied), gone := fun gone => empty (sound.gone gone) }
  · intro other changed
    rcases was other changed with rfl | old
    · rw [group]
      exact sound.staffed.groups w member
    · exact sound.staffed.groups other old
  · intro other changed done
    rcases was other changed with rfl | old
    · unfold Worker.Resolved
      rw [group]
      exact resolved done
    · exact sound.staffed.resolved other old done
  · by_cases same : i = j
    · subst same
      have other' : other = w' := by
        have inside := (List.getElem?_eq_some_iff.mp found).1
        rw [List.getElem?_set_self inside] at here
        exact (Option.some.inj here).symm
      subst other'
      exact sound.drains live draining i w found (filed filed')
    · rw [List.getElem?_set_ne same] at here
      exact sound.drains live draining j other here filed'
theorem notes (sound : Sound mine x) (i : Nat) (throws : Bool) : Sound mine (x.notes i throws) := by
  unfold Guardian.notes
  cases found : x.workers[i]? with
  | none => exact sound
  | some w =>
    dsimp only
    split
    · rename_i status isOpen settled
      have entered (closed : Option Bool) :
          Sound mine { x with workers := x.workers.set i { w with filed := false, closed } } :=
        sound.enters { w with filed := false, closed } found rfl rfl (fun none => (nomatch none))
          (fun _ => ⟨status,settled⟩)
      split_ifs
      · exact (entered _).sends _ (by simp) (by simp)
      · exact (entered _).sends _ (by simp) (by simp)
    · have entered : Sound mine { x with workers := x.workers.set i { w with closed := some false } } := by
        refine sound.enters { w with closed := some false } found rfl rfl (fun filed => filed) (fun done => ?_)
        exact sound.staffed.resolved w (List.mem_of_getElem? found) (.inl (done.resolve_right (by simp)))
      have called := (entered.sends [.failed] (by simp) (by simp)).calls
      split_ifs
      · exact { called with }
      · exact called
    · exact sound
theorem happens (sound : Sound mine x) (i : Nat) (event : WorkerGroup.Event) (weather : Weather) :
    Sound mine (x.happens i event weather) := by
  unfold Guardian.happens
  cases found : x.workers[i]? with
  | none => exact sound
  | some w =>
    have goes : Sound mine { x with workers := x.workers.set i (w.step event weather) } :=
      sound.staffs (set_goes x.workers found (w.step_goes event weather))
    have told : ∀ reply ∈ w.told (w.step event weather), reply ≠ .ready ∧ reply ≠ .stopped := by
      intro reply member
      obtain ⟨report,_,tells⟩ := List.mem_filterMap.mp member
      cases report <;> cases tells <;> exact ⟨by simp,by simp⟩
    have said := goes.sends (w.told (w.step event weather)) (fun member => (told _ member).1 rfl)
        (fun member => (told _ member).2 rfl)
    dsimp only
    split
    · exact sound
    all_goals first | (split_ifs <;> [exact said;exact sound]) | exact goes

/-! ### The publisher's part -/

theorem tell (sound : Sound mine x) (order : Order)
    (start : ∀ id, order = .start id → x.client.startupComplete = true) :
    Sound mine (x.tell order) := by
  unfold Guardian.tell
  split_ifs
  · refine { sound with announced := fun told => sound.announced ?_ }
    rcases told with said | complete | ⟨id,asked⟩
    · exact .inl said
    · exact .inr (.inl complete)
    · rcases List.mem_append.mp asked with old | new
      · exact .inr (.inr ⟨id,old⟩)
      · exact .inr (.inl (start id (List.mem_singleton.mp new).symm))
  · exact sound
theorem closes (sound : Sound mine x) : Sound mine x.closes := by
  unfold Guardian.closes
  split_ifs
  · exact sound
  · have closing : Sound mine { x with client := { x.client with closing := true } } := { sound with }
    exact closing.tell .stop (fun _ none => (nomatch none))
theorem spawns (sound : Sound mine x) : Sound mine x.spawns := by
  unfold Guardian.spawns
  split_ifs with complete
  · have numbered : Sound mine { x with client := { x.client with nextId := x.client.nextId + 1 } } := { sound with }
    dsimp only
    split_ifs
    · exact numbered
    · exact numbered.tell _ (fun _ _ => complete)
  · exact sound
theorem hears (sound : Sound mine x) {reply : Reply} {up : List Reply} (first : x.up = reply :: up) :
    Sound mine (({ x with up } : Guardian).hears reply) := by
  have sent : reply ∈ x.up := by rw [first]; exact List.mem_cons_self
  have less : up ⊆ x.up := by rw [first]; exact List.subset_cons_self _ _
  have taken : Sound mine { x with up } := { sound with
    announced := fun told => sound.announced (told.imp_left (fun member => less member))
    stopped := fun told => sound.stopped (told.imp_left (fun member => less member)) }
  unfold Guardian.hears
  cases reply with
  | ready =>
    dsimp only
    split_ifs
    · exact taken
    · exact { taken with announced := fun _ => sound.announced (.inl sent) }
  | failed =>
    dsimp only
    split_ifs
    · exact taken
    · exact taken.closes
  | stopped => exact { taken with stopped := fun _ => sound.stopped (.inl sent) }
  | spawn id => exact taken
  | error id code => exact taken
  | close id code => exact taken

theorem act (sound : Sound (marker = some g) x) (free : Bool) (act : Act) :
    Keeps g marker (x.act g free marker act) := by
  cases act with
  | starts outcome =>
    simp only [Guardian.act]
    split_ifs with alive
    · exact sound.starts alive free outcome
    · exact sound.keeps
  | unwinds outcome weather =>
    simp only [Guardian.act]
    split_ifs with alive
    · exact sound.unwinds alive outcome weather
    · exact sound.keeps
  | takes pid weather =>
    cases first : x.down with
    | nil => simpa only [Guardian.act,first] using sound.keeps
    | cons order down =>
      simp only [Guardian.act,first]
      refine keeps ?_
      split_ifs with alive
      · exact sound.takes alive first pid weather
      · exact sound
  | group i event weather => exact (sound.happens i event weather).keeps
  | notes i throws =>
    refine keeps ?_
    split_ifs
    · exact sound.notes i throws
    · exact sound
  | terminates =>
    refine keeps ?_
    split_ifs
    · exact sound.calls
    · exact sound
  | disconnects =>
    refine keeps ?_
    split_ifs
    · have cut : Sound (marker = some g) { x with connected := false } := { sound with }
      exact cut.calls
    · exact sound
  | forces weather =>
    simp only [Guardian.act]
    split
    · refine keeps ?_
      split_ifs
      · exact sound.signals _ .kill weather
      · exact sound
    · exact sound.keeps
  | exits =>
    simp only [Guardian.act]
    split
    · refine keeps ?_
      split_ifs with alive
      · exact { sound with
          owned := fun none => (nomatch none), making := fun none => (nomatch none), released := fun _ => rfl
          ended := fun ended => by simpa using ended, live := fun none => (nomatch none) }
      · exact sound
    · exact sound.keeps
  | crash =>
    refine keeps ?_
    split_ifs
    · exact { sound with
        owned := fun none => (nomatch none), making := fun none => (nomatch none), released := fun _ => rfl
        ended := fun none => (nomatch none), live := fun none => (nomatch none) }
    · exact sound
  | closes => exact sound.closes.keeps
  | spawns => exact sound.spawns.keeps
  | kills id value => exact (sound.tell (.kill id value) (fun _ none => (nomatch none))).keeps
  | hears =>
    cases first : x.up with
    | nil => simpa only [Guardian.act,first] using sound.keeps
    | cons reply up => simpa only [Guardian.act,first] using (sound.hears first).keeps
  | leaves => exact keeps { sound with }
  | lost kept =>
    refine keeps ?_
    split_ifs
    · exact sound
    · have less : x.up.take kept ⊆ x.up := List.take_subset _ _
      exact { sound with
        announced := fun told => sound.announced (told.imp_left (fun member => less member))
        stopped := fun told => sound.stopped (told.imp_left (fun member => less member)) }

end Sound
end RelaySwarm.Guardians
