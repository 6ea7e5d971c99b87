import RelaySwarm.StreamDiscovery
import Mathlib.Data.List.Lex

/-!
What is discovered does not depend on the order in which relays answer, nor on
repetition, and no older event brings a stream back (`discovery_settled`). The order
of events is total where equal ids are equal events (`compare_le`), so of each stream
one event decides, and it is kept before anything looks at its status.
-/
namespace RelaySwarm.StreamDiscovery
open JsonText Commitment
variable {library : Library} {policy : Policy} {limits : Limits} {interrupted : Interruption}

/-! ### The order of events -/

/-- An event is newer than another, or as new with an id that is no greater. -/
def Supersedes (a b : Event) : Prop := b.createdAt < a.createdAt ∨ (b.createdAt = a.createdAt ∧ a.id ≤ b.id)
instance : DecidableRel Supersedes := fun _ _ => inferInstanceAs (Decidable (_ ∨ _))

theorem compare_le (a b : Event) : compare a b ≤ 0 ↔ Supersedes a b := by
  unfold compare Supersedes
  by_cases differ : b.createdAt - a.createdAt = 0
  · have equal : b.createdAt = a.createdAt := by omega
    rw [if_neg (not_not.mpr differ)]
    by_cases below : a.id < b.id
    · simp [below,equal,below.le]
    · by_cases above : b.id < a.id
      · simp [below,above,equal]
      · simp [below,above,equal,not_lt.mp above]
  · rw [if_pos differ]
    constructor
    · intro le
      exact .inl (by omega)
    · rintro (newer | ⟨equal,_⟩)
      · omega
      · omega
theorem compare_lt (a b : Event) : compare a b < 0 ↔ ¬ Supersedes b a := by
  rw [← compare_le]
  unfold compare
  by_cases differ : b.createdAt - a.createdAt = 0
  · have back : a.createdAt - b.createdAt = 0 := by omega
    rw [if_neg (not_not.mpr differ),if_neg (not_not.mpr back)]
    by_cases below : a.id < b.id
    · simp [below,not_lt.mpr below.le]
    · by_cases above : b.id < a.id
      · simp [below,above]
      · simp [below,above]
  · have back : ¬ a.createdAt - b.createdAt = 0 := by omega
    rw [if_pos differ,if_pos back]
    omega

instance : IsTrans Event Supersedes where
  trans := by
    rintro a b c (newer | ⟨equal,below⟩) (newer' | ⟨equal',below'⟩)
    · exact .inl (newer'.trans newer)
    · exact .inl (equal' ▸ newer)
    · exact .inl (equal ▸ newer')
    · exact .inr ⟨equal'.trans equal,below.trans below'⟩
instance : Std.Total Supersedes where
  total := by
    intro a b
    rcases lt_trichotomy a.createdAt b.createdAt with older | equal | newer
    · exact .inr (.inl older)
    · rcases le_total a.id b.id with below | above
      · exact .inl (.inr ⟨equal.symm,below⟩)
      · exact .inr (.inr ⟨equal,above⟩)
    · exact .inl (.inl newer)

/-! ### Reading the events -/

/-- The event of a value that a relay sent, if it has the shape of one. -/
def eventOf (policy : Policy) (value : Value) : Option Event :=
  match wireEvent value policy.maxEventBytes with
  | .ok (some wire) => some wire.event
  | _ => none
def bytesOf (policy : Policy) (value : Value) : Nat :=
  match wireEvent value policy.maxEventBytes with
  | .ok (some wire) => wire.bytes
  | _ => 0
def eventsOf (policy : Policy) (items : List Value) : List Event := items.filterMap (eventOf policy)
/-- Values within the limits of a query. -/
structure Within (policy : Policy) (limits : Limits) (items : List Value) : Prop where
  sized : ∀ value ∈ items, ∀ failure, wireEvent value policy.maxEventBytes ≠ .error failure
  few : items.length ≤ limits.maxEvents
  short : (items.map (bytesOf policy)).sum ≤ limits.maxTotalBytes

theorem keepLatest_eq (latest : IndexMap Text Event) (event : Event) :
    keepLatest library policy latest event =
      KeepBest.keep (trustedAddress library · policy) Supersedes latest event := by
  unfold keepLatest KeepBest.keep
  cases named : trustedAddress library event policy with
  | none => simp only [named]
  | some address =>
    cases held : latest.get? address with
    | none => simp [named,held]
    | some previous => simp [named,held,compare_lt]

theorem look_bind {β : Type} {point : Point} {next : Except Failure β} {b : β} :
    (look interrupted point >>= fun _ => next) = .ok b ↔ interrupted point = none ∧ next = .ok b := by
  unfold look
  cases interrupted point with
  | none => simp [bind,Except.bind]
  | some failure => simp [bind,Except.bind]
theorem check_else {β γ : Type} {c : Prop} [Decidable c] {failure : Failure} {behind : γ → Except Failure β}
    {next : Except Failure β} {b : β} :
    (if c then (throw failure : Except Failure γ) >>= behind else next) = .ok b ↔ ¬ c ∧ next = .ok b := by
  by_cases holds : c
  · simp [holds,bind,Except.bind,throw,throwThe,MonadExceptOf.throw]
  · simp [holds]

/-- Reading goes on past a value that is no event, or one that fits into the limits. -/
theorem gather_cons {value : Value} {rest : List Value} {g g' : Gathered} :
    gather library policy limits interrupted g (value :: rest) = .ok g' ↔
      interrupted (.before g.count) = none ∧ interrupted (.after g.count) = none ∧ ¬ limits.maxEvents < g.count + 1 ∧
      ((wireEvent value policy.maxEventBytes = .ok none ∧
          gather library policy limits interrupted { g with count := g.count + 1 } rest = .ok g') ∨
        ∃ wire, wireEvent value policy.maxEventBytes = .ok (some wire) ∧
          ¬ limits.maxTotalBytes < g.totalBytes + wire.bytes ∧
          gather library policy limits interrupted
            ⟨keepLatest library policy g.latest wire.event,g.count + 1,g.totalBytes + wire.bytes⟩ rest = .ok g') := by
  rw [gather,look_bind,look_bind]
  refine and_congr_right fun _ => and_congr_right fun _ => ?_
  dsimp only
  rw [check_else]
  refine and_congr_right fun _ => ?_
  cases wireEvent value policy.maxEventBytes with
  | error failure => simp [bind,Except.bind]
  | ok wire =>
    cases wire with
    | none => simp [bind,Except.bind]
    | some wire =>
      have opened : ∀ next : Option Wire → Except Failure Gathered, (Except.ok (some wire) >>= next) =
          next (some wire) := fun _ => rfl
      rw [opened,check_else]
      simp

theorem gather_keeps {items : List Value} {g g' : Gathered}
    (read : gather library policy limits interrupted g items = .ok g') :
    g'.latest = (eventsOf policy items).foldl (KeepBest.keep (trustedAddress library · policy) Supersedes)
      g.latest := by
  induction items generalizing g with
  | nil =>
    rw [gather,look_bind,look_bind] at read
    rw [← Except.ok.inj read.2.2]
    rfl
  | cons value rest ih =>
    obtain ⟨_,_,_,⟨shape,read⟩ | ⟨wire,shape,_,read⟩⟩ := gather_cons.mp read
    · have absent : eventOf policy value = none := by rw [eventOf,shape]
      rw [ih read,eventsOf,eventsOf,List.filterMap_cons_none absent]
    · have filled : eventOf policy value = some wire.event := by rw [eventOf,shape]
      rw [ih read,keepLatest_eq,eventsOf,eventsOf,List.filterMap_cons_some filled,List.foldl_cons]
theorem gather_reads (library : Library) (limits : Limits) (clear : ∀ point, interrupted point = none)
    {items : List Value} {g : Gathered}
    (sized : ∀ value ∈ items, ∀ failure, wireEvent value policy.maxEventBytes ≠ .error failure)
    (few : g.count + items.length ≤ limits.maxEvents)
    (short : g.totalBytes + (items.map (bytesOf policy)).sum ≤ limits.maxTotalBytes) :
    ∃ g', gather library policy limits interrupted g items = .ok g' := by
  induction items generalizing g with
  | nil =>
    refine ⟨g,?_⟩
    rw [gather,look_bind,look_bind]
    exact ⟨clear _,clear _,rfl⟩
  | cons value rest ih =>
    rw [List.length_cons] at few
    rw [List.map_cons,List.sum_cons] at short
    have later : ∀ value ∈ rest, ∀ failure, wireEvent value policy.maxEventBytes ≠ .error failure :=
      fun value member => sized value (List.mem_cons_of_mem _ member)
    cases shape : wireEvent value policy.maxEventBytes with
    | error failure => exact absurd shape (sized value List.mem_cons_self failure)
    | ok found =>
      cases found with
      | none =>
        have nothing : bytesOf policy value = 0 := by rw [bytesOf,shape]
        obtain ⟨g',read⟩ := ih (g := { g with count := g.count + 1 }) later (by simp only; omega) (by simp only; omega)
        exact ⟨g',gather_cons.mpr ⟨clear _,clear _,by omega,.inl ⟨shape,read⟩⟩⟩
      | some wire =>
        have bytes : bytesOf policy value = wire.bytes := by rw [bytesOf,shape]
        obtain ⟨g',read⟩ :=
          ih (g := ⟨keepLatest library policy g.latest wire.event,g.count + 1,g.totalBytes + wire.bytes⟩)
          later (by simp only; omega) (by simp only; omega)
        exact ⟨g',gather_cons.mpr ⟨clear _,clear _,by omega,.inr ⟨wire,shape,by omega,read⟩⟩⟩

/-! ### Resolving them -/

theorem resolveAll_cases (library : Library) (policy : Policy) (interrupted : Interruption) {maxResults found : Nat}
    (room : found < maxResults) (events : List Event) :
    (∀ result, resolveAll library policy maxResults interrupted found events = .ok result →
      result = (events.filterMap (resolveEvent library · policy)).take (maxResults - found)) ∧
    ((∀ point, interrupted point = none) → ∃ result, resolveAll library policy maxResults interrupted found events =
      .ok result) := by
  induction events generalizing found with
  | nil =>
    refine ⟨?_,fun _ => ⟨[],rfl⟩⟩
    intro result ended
    rw [← Except.ok.inj ended]
    simp
  | cons event rest ih =>
    have more : ∃ left, maxResults - found = left + 1 := ⟨maxResults - found - 1,by omega⟩
    obtain ⟨left,count⟩ := more
    cases resolved : resolveEvent library event policy with
    | none =>
      have same : ∀ result, resolveAll library policy maxResults interrupted found (event :: rest) = .ok result ↔
          interrupted (.resolving found) = none ∧
            resolveAll library policy maxResults interrupted found rest = .ok result := by
        intro result
        rw [resolveAll,look_bind,resolved]
        simp only [if_neg (Nat.ne_of_lt room)]
      obtain ⟨equal,filled⟩ := ih room
      rw [List.filterMap_cons_none (f := (resolveEvent library · policy)) resolved]
      refine ⟨fun result ended => equal result ((same result).mp ended).2,?_⟩
      intro clear
      obtain ⟨result,ended⟩ := filled clear
      exact ⟨result,(same result).mpr ⟨clear _,ended⟩⟩
    | some descriptor =>
      rw [List.filterMap_cons_some (f := (resolveEvent library · policy)) resolved,count,List.take_succ_cons]
      by_cases last : found + 1 = maxResults
      · have same : ∀ result, resolveAll library policy maxResults interrupted found (event :: rest) = .ok result ↔
            interrupted (.resolving found) = none ∧ [descriptor] = result := by
          intro result
          rw [resolveAll,look_bind,resolved]
          simp only [if_pos last]
          exact and_congr_right fun _ => ⟨Except.ok.inj,fun equal => congrArg Except.ok equal⟩
        have empty : left = 0 := by omega
        rw [empty,List.take_zero]
        refine ⟨fun result ended => ((same result).mp ended).2.symm,?_⟩
        intro clear
        exact ⟨[descriptor],(same _).mpr ⟨clear _,rfl⟩⟩
      · obtain ⟨equal,filled⟩ := ih (lt_of_le_of_ne room last)
        have rest' : left = maxResults - (found + 1) := by omega
        have same : ∀ result, resolveAll library policy maxResults interrupted found (event :: rest) = .ok result ↔
            interrupted (.resolving found) = none ∧
              ∃ behind, resolveAll library policy maxResults interrupted (found + 1) rest = .ok behind ∧
              descriptor :: behind = result := by
          intro result
          rw [resolveAll,look_bind,resolved]
          simp only [if_neg last]
          refine and_congr_right fun _ => ?_
          cases resolveAll library policy maxResults interrupted (found + 1) rest with
          | error failure => simp [bind,Except.bind]
          | ok behind => simp [bind,Except.bind,pure,Except.pure]
        constructor
        · intro result ended
          obtain ⟨_,behind,later,rfl⟩ := (same result).mp ended
          rw [equal behind later,rest']
        · intro clear
          obtain ⟨behind,later⟩ := filled clear
          exact ⟨descriptor :: behind,(same _).mpr ⟨clear _,behind,later,rfl⟩⟩
theorem resolveEvent_live {event : Event} {descriptor : Descriptor}
    (resolved : resolveEvent library event policy = some descriptor) :
    descriptor.liveEvent = event := by
  unfold resolveEvent at resolved
  obtain ⟨_,_,resolved⟩ := Option.bind_eq_some_iff.mp resolved
  obtain ⟨_,_,resolved⟩ := Option.bind_eq_some_iff.mp resolved
  obtain ⟨_,_,resolved⟩ := Option.bind_eq_some_iff.mp resolved
  obtain ⟨_,_,resolved⟩ := Option.bind_eq_some_iff.mp resolved
  obtain ⟨_,_,resolved⟩ := Option.bind_eq_some_iff.mp resolved
  obtain ⟨_,_,resolved⟩ := Option.bind_eq_some_iff.mp resolved
  rw [← Option.some.inj resolved]

/-! ### What is discovered -/

/-- Events with equal ids are equal. -/
def SameIds (policy : Policy) (items : List Value) : Prop :=
  ∀ a ∈ eventsOf policy items, ∀ b ∈ eventsOf policy items, a.id = b.id → a = b
/-- An event decides its stream: no event that is accepted for its address is newer, or as new with a lower id. -/
def Decisive (library : Library) (policy : Policy) (items : List Value) (address : Text) (event : Event) : Prop :=
  event ∈ eventsOf policy items ∧ trustedAddress library event policy = some address ∧
    ∀ other ∈ eventsOf policy items, trustedAddress library other policy = some address → Supersedes event other
/-- A value is an event that another of its stream supersedes, or is no accepted event at all. -/
def Outdated (library : Library) (policy : Policy) (items : List Value) (value : Value) : Prop :=
  ∀ event, eventOf policy value = some event → ∀ address, trustedAddress library event policy = some address →
    ∃ other ∈ eventsOf policy items, trustedAddress library other policy = some address ∧ Supersedes other event
/-- The descriptors of the events that decide, at a time. -/
def descriptors (library : Library) (policy : Policy) (limits : Limits) (later : Int) (winners : List Event) :
    List Descriptor :=
  (winners.filterMap (resolveEvent library · { policy with seconds := later })).take limits.maxResults

theorem mem_eventsOf {items : List Value} {event : Event} :
    event ∈ eventsOf policy items ↔ ∃ value ∈ items, eventOf policy value = some event := List.mem_filterMap
theorem antisymmetric {items : List Value} (same : SameIds policy items) :
    KeepBest.Antisymmetric (trustedAddress library · policy) Supersedes (eventsOf policy items) := by
  rintro a member b there _ _ (newer | ⟨equal,below⟩) (newer' | ⟨_,above⟩)
  · exact absurd newer' (by omega)
  · omega
  · omega
  · exact same a member b there (le_antisymm below above)

/-- A query goes through its source, the events in it, and the descriptors of what is kept. -/
theorem discover_ok {source : Source} {later : Int} {result : List Descriptor} (known : source ≠ .other) :
    discoverTrustedStreams library policy limits interrupted later source = .ok result ↔
      interrupted .queried = none ∧ (∀ items, source = .array items → items.length ≤ limits.maxEvents) ∧
      ∃ gathered, gather library policy limits interrupted ⟨.empty,0,0⟩ source.items = .ok gathered ∧
        interrupted .gathered = none ∧ ¬ (later < 0 ∨ (maxSafeInteger : Int) < later) ∧
        resolveAll library { policy with seconds := later } limits.maxResults interrupted 0
          (gathered.latest.values.insertionSort (fun a b => compare a b ≤ 0)) = .ok result := by
  have behind : (gather library policy limits interrupted ⟨.empty,0,0⟩ source.items >>= fun gathered =>
      look interrupted .gathered >>= fun _ =>
        if later < 0 ∨ (maxSafeInteger : Int) < later then
          throw (.typeError "Invalid discovery time.") >>= fun (_ : PUnit) =>
            resolveAll library { policy with seconds := later } limits.maxResults interrupted 0
              (gathered.latest.values.insertionSort (fun a b => compare a b ≤ 0))
        else resolveAll library { policy with seconds := later } limits.maxResults interrupted 0
          (gathered.latest.values.insertionSort (fun a b => compare a b ≤ 0))) = .ok result ↔
      ∃ gathered, gather library policy limits interrupted ⟨.empty,0,0⟩ source.items = .ok gathered ∧
        interrupted .gathered = none ∧ ¬ (later < 0 ∨ (maxSafeInteger : Int) < later) ∧
        resolveAll library { policy with seconds := later } limits.maxResults interrupted 0
          (gathered.latest.values.insertionSort (fun a b => compare a b ≤ 0)) = .ok result := by
    cases gather library policy limits interrupted ⟨.empty,0,0⟩ source.items with
    | error failure => simp [bind,Except.bind]
    | ok gathered =>
      have opened : ∀ next : Gathered → Except Failure (List Descriptor), (Except.ok gathered >>= next) =
          next gathered := fun _ => rfl
      rw [opened,look_bind,check_else]
      simp
  unfold discoverTrustedStreams
  rw [look_bind]
  refine and_congr_right fun _ => ?_
  rw [← behind]
  cases source with
  | other => exact absurd rfl known
  | iterable items => simp
  | array items =>
    dsimp only
    rw [check_else]
    simp

/-- What is discovered is what is kept, resolved in its order. -/
theorem discover_cases (library : Library) (policy : Policy) (limits : Limits) (source : Source)
    (known : source ≠ .other) (later : Int) :
    (∀ interrupted result, discoverTrustedStreams library policy limits interrupted later source = .ok result →
      result = descriptors library policy limits later
        (KeepBest.champions (trustedAddress library · policy) Supersedes (eventsOf policy source.items))) ∧
    (0 ≤ later → later ≤ maxSafeInteger → Within policy limits source.items →
      ∃ result, discoverTrustedStreams library policy limits (fun _ => none) later source = .ok result) := by
  have order : ∀ events : List Event, events.insertionSort (fun a b => compare a b ≤ 0) =
      events.insertionSort Supersedes := by
    intro events
    congr 1
    funext a b
    exact propext (compare_le a b)
  constructor
  · intro interrupted result found
    obtain ⟨_,_,gathered,read,_,_,resolved⟩ := (discover_ok known).mp found
    have kept := gather_keeps read
    rw [order,kept] at resolved
    have answer := (resolveAll_cases library _ interrupted limits.positive _).1 result resolved
    rw [Nat.sub_zero] at answer
    exact answer
  · intro early late within
    have clear : ∀ point, (fun _ => none : Interruption) point = none := fun _ => rfl
    obtain ⟨gathered,read⟩ := gather_reads library limits clear (g := ⟨.empty,0,0⟩) within.sized
      ((Nat.zero_add _).trans_le within.few) ((Nat.zero_add _).trans_le within.short)
    obtain ⟨result,resolved⟩ :=
      (resolveAll_cases library { policy with seconds := later } (fun _ => none) limits.positive
      (gathered.latest.values.insertionSort (fun a b => compare a b ≤ 0))).2 clear
    refine ⟨result,(discover_ok known).mpr ⟨rfl,?_,gathered,read,rfl,by omega,resolved⟩⟩
    intro items array
    have few := within.few
    rw [array] at few
    exact few

/-- Of each stream one event decides, whatever the order in which a query yields the events and
    however often; none that is outdated changes what is discovered. -/
theorem discovery_settled (library : Library) (policy : Policy) (limits : Limits) (later : Int) (items : List Value)
    (same : SameIds policy items) :
    ∃ winners : List Event, winners.Pairwise Supersedes ∧ winners.Nodup ∧
      (∀ event, event ∈ winners ↔ ∃ address, Decisive library policy items address event) ∧
      (∀ descriptor ∈ descriptors library policy limits later winners,
        ∃ address, Decisive library policy items address descriptor.liveEvent) ∧
      ∀ source : Source, source ≠ .other → SameIds policy source.items → (∀ value ∈ items, value ∈ source.items) →
        (∀ value ∈ source.items, value ∈ items ∨ Outdated library policy items value) →
        (∀ interrupted result, discoverTrustedStreams library policy limits interrupted later source = .ok result →
          result = descriptors library policy limits later winners) ∧
        (0 ≤ later → later ≤ maxSafeInteger → Within policy limits source.items →
          discoverTrustedStreams library policy limits (fun _ => none) later source =
            .ok (descriptors library policy limits later winners)) := by
  have decides :
      ∀ event, event ∈ KeepBest.champions (trustedAddress library · policy) Supersedes (eventsOf policy items) ↔
      ∃ address, Decisive library policy items address event := fun event => KeepBest.champions_mem (antisymmetric same)
  refine ⟨_,KeepBest.champions_sorted _,KeepBest.champions_nodup _,decides,?_,?_⟩
  · intro descriptor member
    obtain ⟨event,won,resolved⟩ := List.mem_filterMap.mp (List.mem_of_mem_take member)
    rw [resolveEvent_live resolved]
    exact (decides event).mp won
  · intro source known same' sub old
    have kept : KeepBest.champions (trustedAddress library · policy) Supersedes (eventsOf policy source.items) =
        KeepBest.champions (trustedAddress library · policy) Supersedes (eventsOf policy items) := by
      apply KeepBest.champions_extend (antisymmetric same')
      · intro event member
        obtain ⟨value,there,shape⟩ := mem_eventsOf.mp member
        exact mem_eventsOf.mpr ⟨value,sub value there,shape⟩
      · intro event member
        obtain ⟨value,there,shape⟩ := mem_eventsOf.mp member
        rcases old value there with inside | outdated
        · exact .inl (mem_eventsOf.mpr ⟨value,inside,shape⟩)
        · right
          cases named : trustedAddress library event policy with
          | none => exact .inl rfl
          | some address =>
            obtain ⟨other,inside,own,newer⟩ := outdated event shape address named
            exact .inr ⟨other,inside,own,newer⟩
    obtain ⟨settled,returns⟩ := discover_cases library policy limits source known later
    rw [kept] at settled
    refine ⟨settled,?_⟩
    intro early late within
    obtain ⟨result,found⟩ := returns early late within
    rw [found,settled _ result found]

/-- Updates of one stream, one live and a newer one that ends it. -/
def update (id createdAt : Nat) (status : String) : Event where
  id := List.replicate 64 (48 + id)
  pubkey := List.replicate 64 97
  createdAt := createdAt
  tags := [[lit "d",lit "show"],[lit "status",lit status]]
  content := []
  sig := List.replicate 128 48
def trusting : Library where
  events :=
    { nostr := { text := fun _ => none, getEventHash := fun _ => none, verifyEvent := fun _ => true }, url := fun _ _ => none }
  url _ := none
def oneAuthor : Policy where
  streamAuthorisations := []
  authors := [List.replicate 64 97]
  origins := []
  relays := []
  swarmId := lit "relayswarm"
  iceServers := .null
  allowLoopback := false
  seconds := 1000
  maxAgeSeconds := 3600
  maxFutureSeconds := 30
  maxEventBytes := 16384
theorem discovery_settled_two :
    discoverTrustedStreams trusting oneAuthor ⟨256,32,4096,by decide⟩ (fun _ => none) 1000
        (.iterable [(update 1 990 "live").value,(update 2 995 "ended").value]) =
      discoverTrustedStreams trusting oneAuthor ⟨256,32,4096,by decide⟩ (fun _ => none) 1000
        (.array [(update 2 995 "ended").value,(update 1 990 "live").value,(update 2 995 "ended").value]) := by
  have live : eventOf oneAuthor (update 1 990 "live").value = some (update 1 990 "live") := by decide +kernel
  have ended : eventOf oneAuthor (update 2 995 "ended").value = some (update 2 995 "ended") := by decide +kernel
  have sized : ∀ value, (eventOf oneAuthor value).isSome →
      ∀ failure, wireEvent value oneAuthor.maxEventBytes ≠ .error failure := by
    intro value shape failure refused
    rw [eventOf,refused] at shape
    exact nomatch shape
  have same : SameIds oneAuthor [(update 1 990 "live").value,(update 2 995 "ended").value] := by
    rw [SameIds,eventsOf,List.filterMap_cons_some live,List.filterMap_cons_some ended,List.filterMap_nil]
    decide +kernel
  have same' :
      SameIds oneAuthor [(update 2 995 "ended").value,(update 1 990 "live").value,(update 2 995 "ended").value] := by
    rw [SameIds,eventsOf,List.filterMap_cons_some ended,List.filterMap_cons_some live,List.filterMap_cons_some ended,
      List.filterMap_nil]
    decide +kernel
  obtain ⟨winners,_,_,_,_,each⟩ := discovery_settled trusting oneAuthor ⟨256,32,4096,by decide⟩ 1000 _ same
  rw [(each (.iterable _) (nomatch ·) same (fun _ there => there) (fun _ there => .inl there)).2 (by decide) (by decide)
    ⟨by simp [Source.items,live,ended,sized],by decide,by decide +kernel⟩]
  rw [(each (.array _) (nomatch ·) same' (by simp [Source.items]) (by simp [Source.items])).2 (by decide) (by decide)
    ⟨by simp [Source.items,live,ended,sized],by decide,by decide +kernel⟩]
end RelaySwarm.StreamDiscovery
