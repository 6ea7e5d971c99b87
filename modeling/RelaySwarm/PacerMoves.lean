import RelaySwarm.UploadPacing
import Mathlib.Data.List.Nodup
import Mathlib.Logic.Relation

/-!
What an event can do to the pacer is a sequence of a few moves: a request arrives, is
marked as waiting, is dropped or gets its tokens, a row is finished, a pump ends, and
everything else is told and asked without a change of the rows. What every move keeps
holds after every run.
-/
namespace RelaySwarm.Pacing

/-! ### What the log says -/

section
variable {ι : Type}

/-- An effect that is not a part of the accounts. -/
def Effect.quiet : Effect ι → Bool
  | .now _ => true
  | .take _ took => !took
  | .delay _ => true
  | .validate _ _ => true
  | .refuse _ => true
  | .abort _ => true
  | _ => false
def Effect.acquired : Effect ι → Option Nat
  | .acquire id _ _ => some id
  | _ => none
def Effect.settled : Effect ι → Option Nat
  | .resolve row _ => some row.id
  | _ => none
def Effect.granted : Effect ι → Option Nat
  | .resolve row true => some row.id
  | _ => none
def Effect.finished : Effect ι → Option Nat
  | .give row => some row.id
  | .sent row => some row.id
  | _ => none
def Effect.taken : Effect ι → Option Nat
  | .take charge true => some charge
  | _ => none
def Effect.given : Effect ι → Option Nat
  | .give row => some row.charge
  | _ => none
def Effect.spent : Effect ι → Option Nat
  | .sent row => some row.charge
  | _ => none

/-- The rows that arrived, those whose promises are settled, those with a grant, and those
    that are finished, the newest first. -/
def acquired (log : List (Effect ι)) : List Nat := log.filterMap Effect.acquired
def settled (log : List (Effect ι)) : List Nat := log.filterMap Effect.settled
def granted (log : List (Effect ι)) : List Nat := log.filterMap Effect.granted
def finished (log : List (Effect ι)) : List Nat := log.filterMap Effect.finished
/-- The tokens that were taken, those given back, and the charges of rows that were sent. -/
def taken (log : List (Effect ι)) : Nat := (log.filterMap Effect.taken).sum
def given (log : List (Effect ι)) : Nat := (log.filterMap Effect.given).sum
def spent (log : List (Effect ι)) : Nat := (log.filterMap Effect.spent).sum

variable {effect : Effect ι} {noise log : List (Effect ι)}

theorem quiet_acquired (quiet : effect.quiet = true) : effect.acquired = none := by
  cases effect <;> first | rfl | cases quiet
theorem quiet_settled (quiet : effect.quiet = true) : effect.settled = none := by
  cases effect <;> first | rfl | cases quiet
theorem quiet_granted (quiet : effect.quiet = true) : effect.granted = none := by
  cases effect <;> first | rfl | cases quiet
theorem quiet_finished (quiet : effect.quiet = true) : effect.finished = none := by
  cases effect <;> first | rfl | cases quiet
theorem quiet_taken (quiet : effect.quiet = true) : effect.taken = none := by
  cases effect with
  | take charge took => cases took with
    | false => rfl
    | true => cases quiet
  | _ => rfl
theorem quiet_given (quiet : effect.quiet = true) : effect.given = none := by
  cases effect <;> first | rfl | cases quiet
theorem quiet_spent (quiet : effect.quiet = true) : effect.spent = none := by
  cases effect <;> first | rfl | cases quiet
theorem filterMap_noise {β : Type} {read : Effect ι → Option β}
    (passes : ∀ effect : Effect ι, effect.quiet = true → read effect = none)
    (quiet : ∀ effect ∈ noise, effect.quiet = true) : (noise ++ log).filterMap read = log.filterMap read := by
  rw [List.filterMap_append,List.filterMap_eq_nil_iff.mpr (fun effect member => passes effect (quiet effect member)),
    List.nil_append]
end

/-! ### Moves -/

section
variable {ι : Type}

def Row.fixed (row : Row ι) : Row ι := { row with waiting := false, active := false }
def Pacer.waits (s : Pacer ι) : List (Row ι) := s.queued.map Row.fixed
def Pacer.holds (s : Pacer ι) : List (Row ι) := s.reserved.map Row.fixed

variable (w : World) (maxWaiters : Nat)

inductive Move : Pacer ι → Pacer ι → Prop where
  | quiet {s s' : Pacer ι} (waits : s'.waits = s.waits) (holds : s'.holds = s.holds) (nextId : s'.nextId = s.nextId)
      (pumpedAt : s'.pumpedAt = s.pumpedAt) (calls : s.calls ≤ s'.calls) (noise : List (Effect ι))
      (log : s'.log = noise ++ s.log)
      (quiet : ∀ effect ∈ noise, effect.quiet = true) : Move s s'
  | arrive {s s' : Pacer ι} (row : Row ι) (waits : s'.waits = s.waits ++ [row]) (holds : s'.holds = s.holds)
      (nextId : s'.nextId = s.nextId + 1) (pumpedAt : s'.pumpedAt = s.pumpedAt) (calls : s'.calls = s.calls + 1)
      (log : s'.log = .acquire row.id row.link row.queuedAt :: .now row.queuedAt :: s.log) (id : row.id = s.nextId)
      (queuedAt : row.queuedAt = w.now s.calls) (deadline : row.deadline = row.queuedAt + waitMs)
      (single : ∀ other ∈ s.waits ++ s.holds, other.link ≠ row.link) (few : s.waits.length < maxWaiters) : Move s s'
  | drop {s s' : Pacer ι} (row told : Row ι) (front back : List (Row ι)) (before : s.waits = front ++ row :: back)
      (waits : s'.waits = front ++ back) (holds : s'.holds = s.holds) (nextId : s'.nextId = s.nextId)
      (pumpedAt : s'.pumpedAt = s.pumpedAt) (calls : s'.calls = s.calls) (log : s'.log = .resolve told false :: s.log)
      (id : told.id = row.id) : Move s s'
  | grant {s s' : Pacer ι} (row told : Row ι) (rest : List (Row ι)) (before : s.waits = row :: rest)
    (waits : s'.waits = rest)
      (holds : s'.holds = s.holds ++ [row]) (nextId : s'.nextId = s.nextId) (pumpedAt : s'.pumpedAt = s.pumpedAt)
      (calls : s.calls ≤ s'.calls) (pauses earlier : List (Effect ι)) (moment : ℚ)
      (asked : s.log = .validate row.id true :: .now moment :: earlier) (inTime : moment < row.deadline)
      (log : s'.log = .resolve told true :: (pauses ++ .take row.charge true :: s.log))
      (pause : ∀ effect ∈ pauses, ∃ t, effect = .now t) (same : told.fixed = row) : Move s s'
  | finish {s s' : Pacer ι} (row told : Row ι) (front back : List (Row ι)) (sent : Bool)
    (before : s.holds = front ++ row :: back)
      (waits : s'.waits = s.waits) (holds : s'.holds = front ++ back) (nextId : s'.nextId = s.nextId)
      (pumpedAt : s'.pumpedAt = s.pumpedAt) (calls : s'.calls = s.calls)
      (log : s'.log = (if sent then .sent told else .give told) :: s.log) (same : told.fixed = row) : Move s s'
  | pumped {s s' : Pacer ι} (began : Nat) (waits : s'.waits = s.waits) (holds : s'.holds = s.holds)
      (nextId : s'.nextId = s.nextId) (pumpedAt : s'.pumpedAt = began) (calls : s'.calls = s.calls)
      (log : s'.log = s.log)
      (past : began ≤ s.calls) (due : ∀ row ∈ s.waits, w.now began < row.deadline) : Move s s'

abbrev Moves : Pacer ι → Pacer ι → Prop := Relation.ReflTransGen (Move w maxWaiters)
end

/-! ### What every move keeps -/

section
variable {ι : Type} {w : World} {maxWaiters : Nat} {s s' : Pacer ι}

/-- The rows of a pacer: a link has one at most, and those that wait stand in the order in
    which they arrived. -/
structure Placed (maxWaiters : Nat) (s : Pacer ι) : Prop where
  single : ((s.waits ++ s.holds).map (·.link)).Nodup
  few : s.waits.length ≤ maxWaiters
  arrived : ∀ row ∈ s.waits ++ s.holds, row.id < s.nextId
  ordered : s.waits.Pairwise (fun a b => a.id < b.id)

theorem move_placed (placed : Placed maxWaiters s) (move : Move w maxWaiters s s') : Placed maxWaiters s' := by
  obtain ⟨links,few,arrived,ordered⟩ := placed
  cases move with
  | quiet waits holds nextId _ _ _ _ _ =>
    constructor <;> rw [waits]
    · rwa [holds]
    · exact few
    · rwa [holds,nextId]
    · exact ordered
  | arrive row waits holds nextId _ _ _ id _ _ single room =>
    constructor <;> rw [waits]
    · rw [holds]
      have perm : (s.waits ++ [row] ++ s.holds).Perm (row :: (s.waits ++ s.holds)) := by
        rw [List.append_assoc]
        exact List.perm_middle
      rw [(perm.map _).nodup_iff,List.map_cons,List.nodup_cons]
      refine ⟨?_,links⟩
      rw [List.mem_map]
      rintro ⟨other,member,same⟩
      exact single other member same
    · rw [List.length_append,List.length_singleton]
      omega
    · rw [holds,nextId]
      intro other member
      simp only [List.mem_append,List.mem_singleton] at member
      rcases member with (old | rfl) | old
      · exact Nat.lt_succ_of_lt (arrived other (List.mem_append_left _ old))
      · omega
      · exact Nat.lt_succ_of_lt (arrived other (List.mem_append_right _ old))
    · rw [List.pairwise_append]
      refine ⟨ordered,List.pairwise_singleton _ _,?_⟩
      intro other member own last
      rw [List.mem_singleton.mp last,id]
      exact arrived other (List.mem_append_left _ member)
  | drop row told front back before waits holds nextId _ _ _ _ =>
    have sublist : s'.waits.Sublist s.waits := by
      rw [waits,before]
      exact (List.sublist_cons_self row back).append_left front
    have both : (s'.waits ++ s'.holds).Sublist (s.waits ++ s.holds) := by
      rw [holds]
      exact sublist.append_right _
    refine ⟨links.sublist (both.map _),le_trans sublist.length_le few,?_,ordered.sublist sublist⟩
    rw [nextId]
    exact fun other member => arrived other (both.subset member)
  | grant row told rest before waits holds nextId _ _ _ _ _ _ _ _ _ _ =>
    have perm : (s'.waits ++ s'.holds).Perm (s.waits ++ s.holds) := by
      rw [waits,holds,before,← List.append_assoc]
      have last_first : ((rest ++ s.holds) ++ [row]).Perm ([row] ++ (rest ++ s.holds)) := List.perm_append_comm
      exact last_first.trans (by simp)
    rw [before] at few ordered
    refine ⟨(perm.map _).nodup_iff.mpr links,?_,?_,?_⟩
    · rw [waits]
      exact le_trans (Nat.le_succ _) few
    · rw [nextId]
      exact fun other member => arrived other (perm.subset member)
    · rw [waits]
      exact (List.pairwise_cons.mp ordered).2
  | finish row told front back sent before waits holds nextId _ _ _ _ =>
    have both : (s'.waits ++ s'.holds).Sublist (s.waits ++ s.holds) := by
      rw [waits,holds,before]
      exact ((List.sublist_cons_self row back).append_left front).append_left _
    refine ⟨links.sublist (both.map _),by rwa [waits],?_,by rwa [waits]⟩
    rw [nextId]
    exact fun other member => arrived other (both.subset member)
  | pumped began waits holds nextId _ _ _ _ _ =>
    constructor <;> rw [waits]
    · rwa [holds]
    · exact few
    · rwa [holds,nextId]
    · exact ordered

/-- The promises: a row that waits has one that is not settled. Grants come in the order of
    arrival, before all rows that wait. -/
structure Promised (s : Pacer ι) : Prop where
  once : (settled s.log).Nodup
  all : ∀ id, id ∈ settled s.log ↔ id < s.nextId ∧ id ∉ s.waits.map (·.id)
  order : (granted s.log).Pairwise (· > ·)
  first : ∀ id ∈ granted s.log, ∀ row ∈ s.waits, id < row.id

theorem granted_settled {log : List (Effect ι)} {id : Nat} (member : id ∈ granted log) : id ∈ settled log := by
  obtain ⟨effect,inside,own⟩ := List.mem_filterMap.mp member
  refine List.mem_filterMap.mpr ⟨effect,inside,?_⟩
  unfold Effect.granted at own
  split at own
  · exact own
  · cases own
theorem Promised.of_same (promised : Promised s) (waits : s'.waits = s.waits) (nextId : s'.nextId = s.nextId)
    (done : settled s'.log = settled s.log) (given : granted s'.log = granted s.log) : Promised s' := by
  obtain ⟨once,all,order,first⟩ := promised
  constructor
  · rwa [done]
  · rwa [done,nextId,waits]
  · rwa [given]
  · rwa [given,waits]
theorem settled_row {row : Row ι} {front back : List (Row ι)} (placed : Placed maxWaiters s) (promised : Promised s)
    (before : s.waits = front ++ row :: back) (waits : s'.waits = front ++ back) (nextId : s'.nextId = s.nextId)
    (done : settled s'.log = row.id :: settled s.log) :
    (settled s'.log).Nodup ∧ ∀ id, id ∈ settled s'.log ↔ id < s'.nextId ∧ id ∉ s'.waits.map (·.id) := by
  have inside : row ∈ s.waits := by
    rw [before]
    exact List.mem_append_right _ List.mem_cons_self
  have unsettled : row.id ∉ settled s.log := fun already =>
    ((promised.all row.id).mp already).2 (List.mem_map_of_mem inside)
  have below : row.id < s.nextId := placed.arrived row (List.mem_append_left _ inside)
  have distinct : ((front ++ row :: back).map (·.id)).Nodup := by
    rw [← before]
    exact List.pairwise_map.mpr (placed.ordered.imp (fun less => Nat.ne_of_lt less))
  rw [(List.perm_middle.map _).nodup_iff,List.map_cons,List.nodup_cons] at distinct
  constructor
  · rw [done]
    exact List.nodup_cons.mpr ⟨unsettled,promised.once⟩
  · intro id
    have members : id ∈ s.waits.map (·.id) ↔ id = row.id ∨ id ∈ (front ++ back).map (·.id) := by
      rw [before,(List.perm_middle.map _).mem_iff,List.map_cons,List.mem_cons]
    rw [done,List.mem_cons,nextId,waits,promised.all,members,not_or]
    constructor
    · rintro (rfl | ⟨early,_,other⟩)
      · exact ⟨below,distinct.1⟩
      · exact ⟨early,other⟩
    · rintro ⟨early,other⟩
      by_cases same : id = row.id
      · exact .inl same
      · exact .inr ⟨early,same,other⟩
theorem move_promised (placed : Placed maxWaiters s) (promised : Promised s) (move : Move w maxWaiters s s') :
    Promised s' := by
  cases move with
  | quiet waits _ nextId _ _ noise log quiet =>
    refine promised.of_same waits nextId ?_ ?_ <;> rw [log]
    · exact filterMap_noise (fun _ => quiet_settled) quiet
    · exact filterMap_noise (fun _ => quiet_granted) quiet
  | arrive row waits _ nextId _ _ log id _ _ _ _ =>
    have done : settled s'.log = settled s.log := by rw [log]; rfl
    have given : granted s'.log = granted s.log := by rw [log]; rfl
    obtain ⟨once,all,order,first⟩ := promised
    constructor
    · rwa [done]
    · intro other
      rw [done,nextId,waits,all,List.map_append,List.mem_append,not_or,List.map_singleton,List.mem_singleton,id]
      constructor
      · rintro ⟨early,absent⟩
        exact ⟨Nat.lt_succ_of_lt early,absent,Nat.ne_of_lt early⟩
      · rintro ⟨early,absent,other⟩
        exact ⟨Nat.lt_of_le_of_ne (Nat.le_of_lt_succ early) other,absent⟩
    · rwa [given]
    · intro other member
      rw [given] at member
      rw [waits]
      intro later inside
      rcases List.mem_append.mp inside with old | new
      · exact first other member later old
      · rw [List.mem_singleton.mp new,id]
        exact ((all other).mp (granted_settled member)).1
  | drop row told front back before waits _ nextId _ _ log id =>
    have done : settled s'.log = row.id :: settled s.log := by
      rw [log,← id]
      rfl
    have given : granted s'.log = granted s.log := by rw [log]; rfl
    obtain ⟨once,all⟩ := settled_row placed promised before waits nextId done
    refine ⟨once,all,?_,?_⟩
    · rw [given]
      exact promised.order
    · rw [given,waits]
      intro other member later inside
      refine promised.first other member later ?_
      rw [before]
      exact ((List.sublist_cons_self row back).append_left front).subset inside
  | grant row told rest before waits _ nextId _ _ pauses earlier _ asked _ log pause same =>
    have noise : ∀ effect ∈ pauses, effect.quiet = true := by
      intro effect member
      obtain ⟨t,rfl⟩ := pause effect member
      rfl
    have id : told.id = row.id := by
      rw [← same]
      rfl
    have done : settled s'.log = row.id :: settled s.log := by
      rw [log,← id]
      exact congrArg (told.id :: ·) (filterMap_noise (fun _ => quiet_settled) noise)
    have given : granted s'.log = row.id :: granted s.log := by
      rw [log,← id]
      exact congrArg (told.id :: ·) (filterMap_noise (fun _ => quiet_granted) noise)
    have none_before : s.waits = [] ++ row :: rest := before
    obtain ⟨once,all⟩ := settled_row placed promised none_before waits nextId done
    have ordered := placed.ordered
    have first := promised.first
    rw [before] at ordered first
    refine ⟨once,all,?_,?_⟩
    · rw [given]
      exact List.pairwise_cons.mpr ⟨fun other member => first other member row List.mem_cons_self,promised.order⟩
    · rw [given,waits]
      intro other member later inside
      rcases List.mem_cons.mp member with rfl | old
      · exact (List.pairwise_cons.mp ordered).1 later inside
      · exact first other old later (List.mem_cons_of_mem _ inside)
  | finish row told front back sent _ waits _ nextId _ _ log _ =>
    refine promised.of_same waits nextId ?_ ?_ <;> rw [log] <;> cases sent <;> rfl
  | pumped _ waits _ nextId _ _ log _ _ =>
    refine promised.of_same waits nextId ?_ ?_ <;> rw [log]

/-- The tokens that were taken and not given back are those of the rows that have theirs
    and of the rows that were sent. A row is finished once, after its grant. -/
structure Paid (s : Pacer ι) : Prop where
  balance : taken s.log = given s.log + ((s.holds.map (·.charge)).sum + spent s.log)
  once : (finished s.log).Nodup
  unfinished : ∀ row ∈ s.holds, row.id ∉ finished s.log
  granted : ∀ id ∈ finished s.log, id ∈ granted s.log
  held : ∀ row ∈ s.holds, row.id ∈ Pacing.granted s.log
  distinct : (s.holds.map (·.id)).Nodup

theorem Paid.of_same (paid : Paid s) (holds : s'.holds = s.holds) (bought : taken s'.log = taken s.log)
    (back : given s'.log = given s.log)
    (used : spent s'.log = spent s.log) (done : finished s'.log = finished s.log)
    (told : Pacing.granted s'.log = Pacing.granted s.log) :
    Paid s' := by
  obtain ⟨balance,once,unfinished,granted,held,distinct⟩ := paid
  constructor
  · rwa [bought,back,used,holds]
  · rwa [done]
  · rwa [done,holds]
  · rwa [done,told]
  · rwa [holds,told]
  · rwa [holds]
theorem move_paid (promised : Promised s) (paid : Paid s) (move : Move w maxWaiters s s') : Paid s' := by
  cases move with
  | quiet _ holds _ _ _ noise log quiet =>
    refine paid.of_same holds ?_ ?_ ?_ ?_ ?_ <;> rw [log]
    · exact congrArg List.sum (filterMap_noise (fun _ => quiet_taken) quiet)
    · exact congrArg List.sum (filterMap_noise (fun _ => quiet_given) quiet)
    · exact congrArg List.sum (filterMap_noise (fun _ => quiet_spent) quiet)
    · exact filterMap_noise (fun _ => quiet_finished) quiet
    · exact filterMap_noise (fun _ => quiet_granted) quiet
  | arrive _ _ holds _ _ _ log _ _ _ _ _ =>
    refine paid.of_same holds ?_ ?_ ?_ ?_ ?_ <;> rw [log] <;> rfl
  | drop _ _ _ _ _ _ holds _ _ _ log _ =>
    refine paid.of_same holds ?_ ?_ ?_ ?_ ?_ <;> rw [log] <;> rfl
  | pumped _ _ holds _ _ _ log _ _ =>
    refine paid.of_same holds ?_ ?_ ?_ ?_ ?_ <;> rw [log]
  | grant row told rest before _ holds _ _ _ pauses _ _ _ _ log pause same =>
    obtain ⟨balance,once,unfinished,granted,held,distinct⟩ := paid
    have noise : ∀ effect ∈ pauses, effect.quiet = true := by
      intro effect member
      obtain ⟨t,rfl⟩ := pause effect member
      rfl
    have id : told.id = row.id := by
      rw [← same]
      rfl
    have ungranted : row.id ∉ Pacing.granted s.log := by
      intro already
      refine Nat.lt_irrefl row.id (promised.first row.id already row ?_)
      rw [before]
      exact List.mem_cons_self
    have bought : taken s'.log = row.charge + taken s.log := by
      rw [log]
      exact (congrArg List.sum (filterMap_noise (fun _ => quiet_taken) noise)).trans (List.sum_cons ..)
    have back : given s'.log = given s.log := by
      rw [log]
      exact congrArg List.sum (filterMap_noise (fun _ => quiet_given) noise)
    have used : spent s'.log = spent s.log := by
      rw [log]
      exact congrArg List.sum (filterMap_noise (fun _ => quiet_spent) noise)
    have done : finished s'.log = finished s.log := by
      rw [log]
      exact filterMap_noise (fun _ => quiet_finished) noise
    have given : Pacing.granted s'.log = row.id :: Pacing.granted s.log := by
      rw [log,← id]
      exact congrArg (told.id :: ·) (filterMap_noise (fun _ => quiet_granted) noise)
    constructor
    · rw [bought,back,used,holds,List.map_append,List.sum_append,List.map_singleton,List.sum_singleton]
      omega
    · rwa [done]
    · rw [done,holds]
      intro other member
      rcases List.mem_append.mp member with old | new
      · exact unfinished other old
      · rw [List.mem_singleton.mp new]
        exact fun exceeds => ungranted (granted _ exceeds)
    · rw [done,given]
      exact fun other member => List.mem_cons_of_mem _ (granted other member)
    · rw [holds,given]
      intro other member
      rcases List.mem_append.mp member with old | new
      · exact List.mem_cons_of_mem _ (held other old)
      · rw [List.mem_singleton.mp new]
        exact List.mem_cons_self
    · rw [holds,List.map_append,List.map_singleton,List.nodup_append]
      refine ⟨distinct,List.nodup_singleton _,?_⟩
      intro other member own last same
      obtain ⟨row',inside,rfl⟩ := List.mem_map.mp member
      rw [List.mem_singleton.mp last] at same
      rw [← same] at ungranted
      exact ungranted (held row' inside)
  | finish row told front back sent before _ holds _ _ _ log same =>
    obtain ⟨balance,once,unfinished,granted,held,distinct⟩ := paid
    have id : told.id = row.id := by
      rw [← same]
      rfl
    have charge : told.charge = row.charge := by
      rw [← same]
      rfl
    have inside : row ∈ s.holds := by
      rw [before]
      exact List.mem_append_right _ List.mem_cons_self
    have sublist : (front ++ back).Sublist s.holds := by
      rw [before]
      exact (List.sublist_cons_self row back).append_left front
    have done : finished s'.log = row.id :: finished s.log := by
      rw [log,← id]
      cases sent <;> rfl
    have given' : Pacing.granted s'.log = Pacing.granted s.log := by
      rw [log]
      cases sent <;> rfl
    rw [before,(List.perm_middle.map _).nodup_iff,List.map_cons,List.nodup_cons] at distinct
    constructor
    · rw [before,(List.perm_middle.map _).sum_eq,List.map_cons,List.sum_cons] at balance
      rw [log,holds]
      cases sent with
      | true =>
        have used : spent (.sent told :: s.log) = told.charge + spent s.log := List.sum_cons ..
        have same : taken (.sent told :: s.log) = taken s.log ∧ given (.sent told :: s.log) = given s.log := ⟨rfl,rfl⟩
        rw [if_pos rfl,used,same.1,same.2]
        omega
      | false =>
        have back : given (.give told :: s.log) = told.charge + given s.log := List.sum_cons ..
        have same : taken (.give told :: s.log) = taken s.log ∧ spent (.give told :: s.log) = spent s.log := ⟨rfl,rfl⟩
        rw [if_neg Bool.false_ne_true,back,same.1,same.2]
        omega
    · rw [done]
      exact List.nodup_cons.mpr ⟨unfinished row inside,once⟩
    · rw [done,holds]
      intro other member
      rw [List.mem_cons,not_or]
      refine ⟨?_,unfinished other (sublist.subset member)⟩
      intro own
      exact distinct.1 (List.mem_map.mpr ⟨other,member,own⟩)
    · rw [done,given']
      intro other member
      rcases List.mem_cons.mp member with rfl | old
      · exact held row inside
      · exact granted other old
    · rw [holds,given']
      exact fun other member => held other (sublist.subset member)
    · rw [holds]
      exact distinct.2

/-- The deadlines of the rows that wait. None had passed when the last pump began. -/
structure Timely (w : World) (s : Pacer ι) : Prop where
  deadline : ∀ row ∈ s.waits, row.deadline = row.queuedAt + waitMs
  past : ∀ row ∈ s.waits, row.queuedAt ≤ w.now s.calls
  sorted : s.waits.Pairwise (fun a b => a.deadline ≤ b.deadline)
  due : ∀ row ∈ s.waits, w.now s.pumpedAt < row.deadline
  pumped : s.pumpedAt ≤ s.calls

theorem Timely.of_fewer (timely : Timely w s) (waits : s'.waits.Sublist s.waits) (pumpedAt : s'.pumpedAt = s.pumpedAt)
    (calls : s.calls ≤ s'.calls) : Timely w s' := by
  obtain ⟨deadline,past,sorted,due,pumped⟩ := timely
  refine ⟨fun row member => deadline row (waits.subset member),?_,sorted.sublist waits,?_,?_⟩
  · exact fun row member => le_trans (past row (waits.subset member)) (w.forward calls)
  · rw [pumpedAt]
    exact fun row member => due row (waits.subset member)
  · rw [pumpedAt]
    exact le_trans pumped calls
theorem move_timely (timely : Timely w s) (move : Move w maxWaiters s s') : Timely w s' := by
  cases move with
  | quiet waits _ _ pumpedAt calls _ _ _ => exact timely.of_fewer (waits ▸ List.Sublist.refl _) pumpedAt calls
  | drop row _ front back before waits _ _ pumpedAt calls _ _ =>
    refine timely.of_fewer ?_ pumpedAt (le_of_eq calls.symm)
    rw [waits,before]
    exact (List.sublist_cons_self row back).append_left front
  | grant row _ rest before waits _ _ pumpedAt calls _ _ _ _ _ _ _ _ =>
    refine timely.of_fewer ?_ pumpedAt calls
    rw [waits,before]
    exact List.sublist_cons_self row rest
  | finish _ _ _ _ _ _ waits _ _ pumpedAt calls _ _ =>
    exact timely.of_fewer (waits ▸ List.Sublist.refl _) pumpedAt (le_of_eq calls.symm)
  | pumped began waits _ _ pumpedAt calls _ past due =>
    have same : Timely w { s' with pumpedAt := s.pumpedAt } :=
      timely.of_fewer (waits ▸ List.Sublist.refl _) rfl (le_of_eq calls.symm)
    refine ⟨same.deadline,same.past,same.sorted,?_,?_⟩
    · rw [waits,pumpedAt]
      exact due
    · rw [pumpedAt,calls]
      exact past
  | arrive row waits _ _ pumpedAt calls _ _ queuedAt fixed _ _ =>
    obtain ⟨deadline,past,sorted,due,pumped⟩ := timely
    have later : ∀ other ∈ s.waits, other.deadline ≤ row.deadline := by
      intro other member
      rw [deadline other member,fixed,queuedAt]
      exact add_le_add_left (past other member) _
    have next : w.now s.calls ≤ w.now s'.calls := w.forward (calls ▸ Nat.le_succ _)
    constructor
    · rw [waits]
      intro other member
      rcases List.mem_append.mp member with old | new
      · exact deadline other old
      · rw [List.mem_singleton.mp new]
        exact fixed
    · rw [waits]
      intro other member
      rcases List.mem_append.mp member with old | new
      · exact le_trans (past other old) next
      · rw [List.mem_singleton.mp new,queuedAt]
        exact next
    · rw [waits,List.pairwise_append]
      refine ⟨sorted,List.pairwise_singleton _ _,?_⟩
      intro other member own last
      rw [List.mem_singleton.mp last]
      exact later other member
    · rw [waits,pumpedAt]
      intro other member
      rcases List.mem_append.mp member with old | new
      · exact due other old
      · rw [List.mem_singleton.mp new,fixed,queuedAt]
        exact lt_of_le_of_lt (w.forward pumped) (lt_add_of_pos_right _ (by norm_num [waitMs]))
    · rw [pumpedAt,calls]
      exact Nat.le_succ_of_le pumped

/-- What stands before a grant in the log: the tokens were taken, after the row was valid,
    after the clock was before its deadline, 250 ms after it was acquired. Only the clock
    is read in between. -/
def Allowed (told : Row ι) (earlier : List (Effect ι)) : Prop :=
  ∃ (pauses before : List (Effect ι)) (moment : ℚ),
    earlier = pauses ++ .take told.charge true :: .validate told.id true :: .now moment :: before ∧
    (∀ effect ∈ pauses, ∃ t, effect = .now t) ∧ moment < told.queuedAt + waitMs ∧
    .acquire told.id told.link told.queuedAt ∈ before
structure Granted (s : Pacer ι) : Prop where
  allowed : ∀ told earlier, .resolve told true :: earlier <:+ s.log → Allowed told earlier
  acquired : ∀ row ∈ s.waits, .acquire row.id row.link row.queuedAt ∈ s.log
/-- Rows are numbered as they arrive, and are acquired once. -/
structure Numbered (s : Pacer ι) : Prop where
  arrivals : acquired s.log = (List.range s.nextId).reverse
  named : ∀ id link here, .acquire id link here ∈ s.log → ∀ row ∈ s.waits, row.id = id → row.queuedAt = here

theorem suffix_noise {noise log rest : List (Effect ι)} {told : Row ι} (quiet : ∀ effect ∈ noise, effect.quiet = true)
    (suffix : .resolve told true :: rest <:+ noise ++ log) : .resolve told true :: rest <:+ log := by
  induction noise with
  | nil => exact suffix
  | cons effect noise ih =>
    rcases List.suffix_cons_iff.mp suffix with same | inside
    · have first := quiet effect List.mem_cons_self
      rw [← (List.cons.inj same).1] at first
      cases first
    · exact ih (fun effect member => quiet effect (List.mem_cons_of_mem _ member)) inside
theorem suffix_later {log rest : List (Effect ι)} {told : Row ι} {effect : Effect ι}
    (other : effect ≠ .resolve told true)
    (suffix : .resolve told true :: rest <:+ effect :: log) : .resolve told true :: rest <:+ log := by
  rcases List.suffix_cons_iff.mp suffix with same | inside
  · exact absurd (List.cons.inj same).1.symm other
  · exact inside
theorem Granted.of_fewer (granted : Granted s) (waits : s'.waits.Sublist s.waits) (kept : s.log <:+ s'.log)
    (suffix : ∀ told earlier, .resolve told true :: earlier <:+ s'.log →
      .resolve told true :: earlier <:+ s.log) : Granted s' := by
  refine ⟨fun told earlier inside => granted.allowed told earlier (suffix told earlier inside),?_⟩
  exact fun row member => kept.subset (granted.acquired row (waits.subset member))
theorem move_granted (timely : Timely w s) (granted : Granted s) (move : Move w maxWaiters s s') : Granted s' := by
  cases move with
  | quiet waits _ _ _ _ noise log quiet =>
    refine granted.of_fewer (waits ▸ List.Sublist.refl _) (log ▸ List.suffix_append _ _) ?_
    intro told earlier suffix
    rw [log] at suffix
    exact suffix_noise quiet suffix
  | drop row told front back before waits _ _ _ _ log _ =>
    refine granted.of_fewer ?_ (log ▸ List.suffix_cons _ _) ?_
    · rw [waits,before]
      exact (List.sublist_cons_self row back).append_left front
    · intro other earlier suffix
      rw [log] at suffix
      refine suffix_later ?_ suffix
      intro same
      cases same
  | finish row told _ _ sent _ waits _ _ _ _ log _ =>
    refine granted.of_fewer (waits ▸ List.Sublist.refl _) (log ▸ List.suffix_cons _ _) ?_
    intro other earlier suffix
    rw [log] at suffix
    refine suffix_later ?_ suffix
    intro same
    cases sent <;> cases same
  | pumped _ waits _ _ _ _ log _ _ =>
    refine granted.of_fewer (waits ▸ List.Sublist.refl _) (log ▸ List.suffix_refl _) ?_
    intro other earlier suffix
    rwa [log] at suffix
  | arrive row waits _ _ _ _ log _ _ _ _ _ =>
    constructor
    · intro told earlier suffix
      rw [log] at suffix
      have inside := suffix_later (by simp) suffix
      exact granted.allowed told earlier (suffix_later (by simp) inside)
    · rw [waits,log]
      intro other member
      rcases List.mem_append.mp member with old | new
      · exact List.mem_cons_of_mem _ (List.mem_cons_of_mem _ (granted.acquired other old))
      · rw [List.mem_singleton.mp new]
        exact List.mem_cons_self
  | grant row told rest before waits _ _ _ _ pauses first here asked inTime log pause same =>
    have inside : row ∈ s.waits := by
      rw [before]
      exact List.mem_cons_self
    have acquired := granted.acquired row inside
    constructor
    · intro other earlier suffix
      rw [log] at suffix
      rcases List.suffix_cons_iff.mp suffix with own | older
      · cases own
        refine ⟨pauses,first,here,?_,pause,?_,?_⟩
        · rw [asked,← same]
          rfl
        · rw [timely.deadline row inside,← same] at inTime
          exact inTime
        · rw [asked] at acquired
          rw [← same] at acquired
          rcases List.mem_cons.mp acquired with wrong | acquired
          · cases wrong
          · rcases List.mem_cons.mp acquired with wrong | acquired
            · cases wrong
            · exact acquired
      · have noise : ∀ effect ∈ pauses, effect.quiet = true := by
          intro effect member
          obtain ⟨t,rfl⟩ := pause effect member
          rfl
        exact granted.allowed other earlier (suffix_later (by simp) (suffix_noise noise older))
    · rw [waits,log]
      intro other member
      have old := granted.acquired other (by
        rw [before]
        exact List.mem_cons_of_mem _ member)
      exact List.mem_cons_of_mem _ (List.mem_append_right _ (List.mem_cons_of_mem _ old))

theorem acquired_early (numbered : Numbered s) {id : Nat} {link : ι} {moment : ℚ}
    (told : .acquire id link moment ∈ s.log) : id < s.nextId := by
  have member : id ∈ acquired s.log := List.mem_filterMap.mpr ⟨_,told,rfl⟩
  rw [numbered.arrivals,List.mem_reverse] at member
  exact List.mem_range.mp member
theorem Numbered.of_fewer (numbered : Numbered s) (waits : s'.waits.Sublist s.waits) (nextId : s'.nextId = s.nextId)
    (noise : List (Effect ι)) (log : s'.log = noise ++ s.log)
    (other : ∀ effect ∈ noise, effect.acquired = none) : Numbered s' := by
  constructor
  · unfold acquired
    rw [nextId,log,List.filterMap_append,List.filterMap_eq_nil_iff.mpr other]
    exact numbered.arrivals
  · rw [log]
    intro id link here told row member own
    rcases List.mem_append.mp told with new | old
    · cases other _ new
    · exact numbered.named id link here old row (waits.subset member) own
theorem move_numbered (placed : Placed maxWaiters s) (numbered : Numbered s) (move : Move w maxWaiters s s') :
    Numbered s' := by
  cases move with
  | quiet waits _ nextId _ _ noise log quiet =>
    exact numbered.of_fewer (waits ▸ List.Sublist.refl _) nextId noise log
      (fun effect member => quiet_acquired (quiet effect member))
  | drop row told front back before waits _ nextId _ _ log _ =>
    refine numbered.of_fewer ?_ nextId [.resolve told false] log (by simp [Effect.acquired])
    rw [waits,before]
    exact (List.sublist_cons_self row back).append_left front
  | grant row told rest before waits _ nextId _ _ pauses _ _ _ _ log pause _ =>
    refine numbered.of_fewer ?_ nextId (.resolve told true :: (pauses ++ [.take row.charge true])) (by simp [log]) ?_
    · rw [waits,before]
      exact List.sublist_cons_self row rest
    · intro effect member
      simp only [List.mem_cons,List.mem_append,List.not_mem_nil,or_false] at member
      rcases member with rfl | member | rfl
      · rfl
      · obtain ⟨t,rfl⟩ := pause effect member
        rfl
      · rfl
  | finish row told _ _ sent _ waits _ nextId _ _ log _ =>
    refine numbered.of_fewer (waits ▸ List.Sublist.refl _) nextId [if sent then .sent told else .give told] log ?_
    intro effect member
    rw [List.mem_singleton.mp member]
    cases sent <;> rfl
  | pumped _ waits _ nextId _ _ log _ _ =>
    exact numbered.of_fewer (waits ▸ List.Sublist.refl _) nextId [] log (fun _ member => nomatch member)
  | arrive row waits _ nextId _ _ log id _ _ _ _ =>
    constructor
    · have new : acquired s'.log = row.id :: acquired s.log := by rw [log]; rfl
      rw [new,nextId,numbered.arrivals,List.range_succ,List.reverse_append,id]
      rfl
    · rw [log,waits]
      intro other link here told later member own
      rcases List.mem_append.mp member with old | new
      · rcases List.mem_cons.mp told with first | told
        · cases first
          have early := placed.arrived later (List.mem_append_left _ old)
          omega
        · rcases List.mem_cons.mp told with wrong | told
          · cases wrong
          · exact numbered.named other link here told later old own
      · rw [List.mem_singleton.mp new] at own ⊢
        rcases List.mem_cons.mp told with first | told
        · cases first
          rfl
        · rcases List.mem_cons.mp told with wrong | told
          · cases wrong
          · have early := acquired_early numbered told
            omega

/-! ### All of it -/

structure Fair (w : World) (maxWaiters : Nat) (s : Pacer ι) : Prop where
  placed : Placed maxWaiters s
  promised : Promised s
  paid : Paid s
  timely : Timely w s
  granted : Granted s
  numbered : Numbered s

theorem move_fair (fair : Fair w maxWaiters s) (move : Move w maxWaiters s s') : Fair w maxWaiters s' where
  placed := move_placed fair.placed move
  promised := move_promised fair.placed fair.promised move
  paid := move_paid fair.promised fair.paid move
  timely := move_timely fair.timely move
  granted := move_granted fair.timely fair.granted move
  numbered := move_numbered fair.placed fair.numbered move
theorem moves_fair (fair : Fair w maxWaiters s) (moves : Moves w maxWaiters s s') : Fair w maxWaiters s' := by
  induction moves with
  | refl => exact fair
  | tail _ move ih => exact move_fair ih move
theorem create_fair : Fair w maxWaiters (Pacer.create : Pacer ι) where
  placed := ⟨List.nodup_nil,Nat.zero_le _,fun _ member => (nomatch member),List.Pairwise.nil⟩
  promised :=
    ⟨List.nodup_nil,fun _ => ⟨fun member => (nomatch member),fun below => (nomatch below.1)⟩,List.Pairwise.nil,
    fun _ member => (nomatch member)⟩
  paid := ⟨rfl,List.nodup_nil,fun _ member => (nomatch member),fun _ member => (nomatch member),
    fun _ member => (nomatch member),List.nodup_nil⟩
  timely := ⟨fun _ member => (nomatch member),fun _ member => (nomatch member),List.Pairwise.nil,
    fun _ member => (nomatch member),le_rfl⟩
  granted := ⟨fun _ _ suffix => (nomatch List.suffix_nil.mp suffix),fun _ member => (nomatch member)⟩
  numbered := ⟨rfl,fun _ _ _ told => (nomatch told)⟩
end

end RelaySwarm.Pacing
