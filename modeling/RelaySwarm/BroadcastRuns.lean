import RelaySwarm.Broadcast

/-!
A published media sequence number never changes its segment, as long as no publication
is overtaken by the position of the next generation (`numbers_kept`). What was published
is kept as a list for each rendition; every member is of one generation, and the ones of
another generation end before that one starts.
-/
namespace RelaySwarm.Broadcast
open Script Playlist

/-! ### Publications -/

variable {n drawn : Nat} {level : Level} {body : Text} {g : Generation} {generation : Option Generation}
  {q : Publishing} {p : Process} {w : Working} {position : Position} {encoder : Encoder}
/-- One content of a published playlist: whose it is and the window it lists. -/
structure Publication where
  generation : Generation
  first : Nat
  count : Nat
  body : Text
variable {a : Publication}
def Publication.stop (a : Publication) : Nat := a.first + a.count
/-- A publication ends before a generation of another name starts. -/
structure Publication.Behind (a : Publication) (g : Generation) : Prop where
  other : a.generation.serial ≠ g.serial
  stop : a.stop ≤ g.startNumber
  discontinuity : a.generation.discontinuity < g.discontinuity
/-- Two publications of a rendition, in their order. -/
inductive Before (a b : Publication) : Prop
  | same (one : a.generation = b.generation) (first : a.first ≤ b.first) (stop : a.stop ≤ b.stop)
  | behind (behind : a.Behind b.generation)
theorem Before.refl (a : Publication) : Before a a := .same rfl le_rfl le_rfl

theorem hexDigit_named (small : n < 16) : isTerminator (hexDigit n) = false ∧ hexDigit n ≠ '/' := by
  have all : ∀ n < 16, isTerminator (hexDigit n) = false ∧ hexDigit n ≠ '/' := by decide
  exact all n small
section
variable {draws : Nat → Draw}

theorem entry_named (n : Nat) : Named (entry draws n) := by
  intro c inside
  unfold entry entryName at inside
  simp only [List.mem_append,List.mem_cons] at inside
  rcases inside with (inside | inside) | rfl | inside
  · exact named_all (by decide) c inside
  · exact digit_named (digits_digit inside)
  · decide
  · obtain ⟨byte,_,inside⟩ := List.mem_flatMap.mp inside
    have small : byte.toNat < 256 := byte.toNat_lt
    simp only [hexByte,List.mem_cons,List.not_mem_nil,or_false] at inside
    rcases inside with rfl | rfl
    · exact hexDigit_named (by omega)
    · exact hexDigit_named (by omega)
theorem name_named (level : Level) : Named level.name := by
  cases level with
  | low => exact named_all (by decide)
  | high => exact named_all (by decide)

/-- A published content shows the window of its generation. -/
structure Publication.Shown (draws : Nat → Draw) (a : Publication) (level : Level) : Prop where
  publishes : Publishes a.body (entry draws a.generation.serial) level.name a.generation.discontinuity a.first a.count
  started : a.generation.startNumber ≤ a.first

theorem Before.follows {a b : Publication} (before : Before a b) (shownA : a.Shown draws level)
    (shownB : b.Shown draws level) : Follows a.body b.body := by
  obtain ⟨showA,startA⟩ := shownA
  obtain ⟨showB,startB⟩ := shownB
  cases before with
  | same one first stop =>
    rw [one] at showA
    constructor
    · intro n u v listA listB
      rw [(showA.lists listA).1,(showB.lists listB).1]
    · rw [showA.sequence,showB.sequence]
      exact first
    · rw [showA.discontinuity,showB.discontinuity]
    · intro u inside v inside' other
      rw [showA.generation (entry_named _) inside,showB.generation (entry_named _) inside'] at other
      exact absurd rfl other
  | behind behind =>
    obtain ⟨_,stop,less⟩ := behind
    have stop : a.first + a.count ≤ b.generation.startNumber := stop
    constructor
    · intro n u v listA listB
      obtain ⟨_,_,high⟩ := showA.lists listA
      obtain ⟨_,low,_⟩ := showB.lists listB
      omega
    · rw [showA.sequence,showB.sequence]
      omega
    · rw [showA.discontinuity,showB.discontinuity]
      exact less.le
    · intro u _ v _ _
      rw [showA.discontinuity,showB.discontinuity]
      exact less

/-! ### The files -/

/-- An encoder already wrote a window that reaches this far. -/
def Reached (encoders : Nat → Option Encoder) (serial : Nat) (level : Level) (first count : Nat) : Prop :=
  ∃ e f k, encoders serial = some e ∧ e.window level = some (f,k) ∧ first ≤ f ∧ first + count ≤ f + k
/-- The files agree with what was published and what the encoders wrote. Every encoder
    has a serial number below the bound. -/
structure Records (draws : Nat → Draw) (past : Level → List Publication) (s : System) (bound : Nat) : Prop where
  shown : ∀ level, ∀ a ∈ past level, a.Shown draws level
  order : ∀ level, (past level).Pairwise Before
  latest : ∀ level, s.published level = (past level).getLast?.map (·.body)
  reached : ∀ level, ∀ a ∈ past level, Reached s.encoders a.generation.serial level a.first a.count
  files : ∀ n level raw, s.runs (entry draws n) level = some raw → ∃ e f k, s.encoders n = some e ∧
    e.window level = some (f,k) ∧ Encoded raw f k
  windows : ∀ n e level f k, s.encoders n = some e → e.window level = some (f,k) → e.startNumber ≤ f
  born : ∀ n e, s.encoders n = some e → n < bound

variable {past : Level → List Publication} {s s' : System} {encoders encoders' : Nat → Option Encoder}
    {bound bound' : Nat}

theorem Records.same (records : Records draws past s bound) (published : s'.published = s.published)
    (runs : s'.runs = s.runs)
    (encoders : s'.encoders = s.encoders) (more : bound ≤ bound') : Records draws past s' bound' where
  shown := records.shown
  order := records.order
  latest := by rw [published]; exact records.latest
  reached := by rw [encoders]; exact records.reached
  files := by rw [runs,encoders]; exact records.files
  windows := by rw [encoders]; exact records.windows
  born := by
    rw [encoders]
    intro n e known
    exact (records.born n e known).trans_le more
theorem Records.below (records : Records draws past s bound) (inside : a ∈ past level) :
    a.generation.serial < bound := by
  obtain ⟨e,_,_,known,_⟩ := records.reached level a inside
  exact records.born _ e known
theorem Records.last (records : Records draws past s bound) (found : s.published level = some body) :
    ∃ b ∈ past level, b.body = body ∧ ∀ a ∈ past level, Before a b := by
  rw [records.latest level,Option.map_eq_some_iff] at found
  obtain ⟨b,last,rfl⟩ := found
  obtain ⟨front,shape⟩ := List.getLast?_eq_some_iff.mp last
  refine ⟨b,by rw [shape]; simp,rfl,fun a inside => ?_⟩
  have order := records.order level
  rw [shape] at order inside
  rcases List.mem_append.mp inside with earlier | one
  · exact (List.pairwise_append.mp order).2.2 a earlier b (List.mem_singleton_self b)
  · rw [List.mem_singleton.mp one]
    exact .refl b
theorem Records.unpublished (records : Records draws past s bound) (missing : s.published level = none) :
    past level = [] := by
  rw [records.latest level,Option.map_eq_none_iff] at missing
  exact List.getLast?_eq_none_iff.mp missing
theorem Before.reaches {a b : Publication} (before : Before a b) (shown : b.Shown draws level) :
    a.stop ≤ b.stop ∧ a.generation.discontinuity ≤ b.generation.discontinuity := by
  cases before with
  | same one first stop => exact ⟨stop,by rw [one]⟩
  | behind behind =>
    have started := shown.started
    have stop := behind.stop
    exact ⟨by unfold Publication.stop at stop ⊢; omega,behind.discontinuity.le⟩

/-! ### What the loops hold -/

/-- A generation stands: what was published is its own, or ends before it starts. -/
structure Standing (past : Level → List Publication) (encoders : Nat → Option Encoder) (bound : Nat)
    (g : Generation) : Prop where
  above : ∀ level, ∀ a ∈ past level, a.generation = g ∨ a.Behind g
  launched : ∀ e, encoders g.serial = some e → e.startNumber = g.startNumber
  below : g.serial < bound
/-- A copy may be published: it goes on from what its generation published before. -/
def Ready (draws : Nat → Draw) (past : Level → List Publication) (encoders : Nat → Option Encoder) (g : Generation)
    (level : Level)
    (copy : Copy) : Prop :=
  ∃ f k, Publishes copy.body (entry draws g.serial) level.name g.discontinuity f k ∧ g.startNumber ≤ f ∧
    Reached encoders g.serial level f k ∧ ∀ a ∈ past level, a.generation = g → a.first ≤ f ∧ a.stop ≤ f + k
/-- The generation in hand has its serial number to itself. -/
def Alone (generation : Option Generation) (g : Generation) : Prop :=
  ∀ g', generation = some g' → g'.serial = g.serial → g' = g
section
variable (draws) (past) (encoders) (bound)
/-- What a publication in progress has in hand. -/
def Publishing.Holds (generation : Option Generation) : Publishing → Prop
  | .resting | .masterReading | .masterWriting | .masterRenaming => True
  | .reading g _ _ pending => Standing past encoders bound g ∧ Alone generation g ∧
      ∀ l copy, pending l = some copy → Ready draws past encoders g l copy
  | .writing g level left pending copy | .moving g level left pending copy =>
    Standing past encoders bound g ∧ Alone generation g ∧
      (∀ l ∈ left, ∀ copy, pending l = some copy → Ready draws past encoders g l copy) ∧ (level :: left).Nodup ∧
      Ready draws past encoders g level copy
  | .checking g _ left pending _ => Standing past encoders bound g ∧ Alone generation g ∧
      (∀ l ∈ left, ∀ copy, pending l = some copy → Ready draws past encoders g l copy) ∧ left.Nodup
end
/-- The serial number of the generation that is being made. -/
def Working.making : Working → Option Nat
  | .counting serial | .recording serial _ | .statting serial _ _ _ | .reading serial _ _ _ | .placing serial _ =>
    some serial
  | _ => none
/-- What the encoder loop has in hand: a position behind which everything is that was
    published where it looked, and a generation whose encoder is not started yet. -/
structure Working.Holds (past : Level → List Publication) (encoders : Nat → Option Encoder) (drawn : Nat)
    (generation : Option Generation) (w : Working) : Prop where
  drawn : ∀ n, w.making = some n → n < drawn
  passed : ∀ level position, w.passed level = some position → ∀ a ∈ past level,
    a.stop ≤ position.nextSequence ∧ a.generation.discontinuity < position.nextDiscontinuity
  unstarted : w = .launching → ∀ g, generation = some g → encoders g.serial = none
/-- Every generation has a serial number below this: the one that is being made, or the
    number of names drawn. -/
def Working.limit (w : Working) (drawn : Nat) : Nat := w.making.getD drawn
structure Sound (draws : Nat → Draw) (past : Level → List Publication) (s : System) (p : Process) : Prop where
  generation : ∀ g, p.generation = some g → Standing past s.encoders (p.working.limit s.drawn) g
  publishing : p.publishing.Holds draws past s.encoders (p.working.limit s.drawn) p.generation
  working : p.working.Holds past s.encoders s.drawn p.generation
def System.limit (s : System) : Nat := (s.process.map (fun p => p.working.limit s.drawn)).getD s.drawn
structure Kept (draws : Nat → Draw) (past : Level → List Publication) (s : System) : Prop where
  records : Records draws past s s.limit
  running : ∀ p, s.process = some p → Sound draws past s p

theorem Standing.later (standing : Standing past encoders bound g) (more : bound ≤ bound') :
    Standing past encoders bound' g :=
  ⟨standing.above,standing.launched,standing.below.trans_le more⟩
theorem Publishing.Holds.later (more : bound ≤ bound')
    (holds : q.Holds draws past encoders bound generation) : q.Holds draws past encoders bound' generation := by
  cases q with
  | resting | masterReading | masterWriting | masterRenaming => exact holds
  | reading g level left pending => exact ⟨holds.1.later more,holds.2⟩
  | writing g level left pending copy | moving g level left pending copy => exact ⟨holds.1.later more,holds.2⟩
  | checking g level left pending copy => exact ⟨holds.1.later more,holds.2⟩
theorem Kept.limit (running : s.process = some p) : s.limit = p.working.limit s.drawn := by
  unfold System.limit
  rw [running]
  rfl
theorem Kept.worked (kept : Kept draws past s) (running : s.process = some p)
    (published : s'.published = s.published) (runs : s'.runs = s.runs) (encoders : s'.encoders = s.encoders)
    (more : p.working.limit s.drawn ≤ w.limit s'.drawn) (holds : w.Holds past s.encoders s'.drawn p.generation) :
    Kept draws past (s'.withProcess (p.goto w)) := by
  obtain ⟨generation,publishing,_⟩ := kept.running p running
  refine ⟨kept.records.same published runs encoders (by rw [Kept.limit running]; exact more),fun q same => ?_⟩
  cases same
  have encoders : (s'.withProcess (p.goto w)).encoders = s.encoders := encoders
  refine ⟨?_,?_,?_⟩
  · rw [encoders]
    exact fun g known => (generation g known).later more
  · rw [encoders]
    exact publishing.later more
  · rw [encoders]
    exact holds
theorem Kept.publishedOn (kept : Kept draws past s) (running : s.process = some p)
    (holds : q.Holds draws past s.encoders (p.working.limit s.drawn) p.generation) :
    Kept draws past (s.withProcess (p.on q)) := by
  obtain ⟨generation,_,working⟩ := kept.running p running
  refine ⟨kept.records.same rfl rfl rfl (by rw [Kept.limit running]; rfl),fun q' same => ?_⟩
  cases same
  exact ⟨generation,holds,working⟩

/-! ### The encoder loop -/

theorem Working.Holds.idle (making : w.making = none)
    (passed : ∀ level, w.passed level = none) (other : w ≠ .launching) : w.Holds past encoders drawn generation where
  drawn := by
    intro n known
    rw [making] at known
    cases known
  passed := by
    intro level position known
    rw [passed] at known
    cases known
  unstarted := fun launching => absurd launching other
theorem Working.limit_idle (making : w.making = none) : w.limit drawn = drawn := by
  unfold Working.limit
  rw [making]
  rfl
theorem Working.Holds.small
    (holds : w.Holds past encoders drawn generation) : w.limit drawn ≤ drawn := by
  unfold Working.limit
  cases making : w.making with
  | none => exact le_rfl
  | some n => exact (holds.drawn n making).le
theorem Kept.idle (kept : Kept draws past s) (running : s.process = some p)
    (making : w.making = none) (passed : ∀ level, w.passed level = none) (other : w ≠ .launching) :
    Kept draws past (s.withProcess (p.goto w)) := by
  refine kept.worked running rfl rfl rfl ?_ (.idle making passed other)
  rw [Working.limit_idle making]
  exact (kept.running p running).working.small
theorem Kept.failed (kept : Kept draws past s) (running : s.process = some p) :
    Kept draws past (s.withProcess (p.goto .failed)) :=
  kept.idle running rfl (fun _ => rfl) (fun same => by cases same)
/-- Everything published of the renditions that were looked at is behind the position. -/
def Passed (past : Level → List Publication) (left : List Level) (position : Position) : Prop :=
  ∀ level, level ∉ left → ∀ a ∈ past level, a.stop ≤ position.nextSequence ∧
    a.generation.discontinuity < position.nextDiscontinuity
theorem seek_holds {left : List Level} (small : n < drawn)
    (passed : Passed past left position) : (seek n position left).Holds past encoders drawn generation := by
  cases left with
  | nil =>
    refine ⟨fun m same => by cases same; exact small,fun level p same => ?_,fun same => by cases same⟩
    cases same
    exact passed level List.not_mem_nil
  | cons next rest =>
    refine ⟨fun m same => by cases same; exact small,fun level p same => ?_,fun same => by cases same⟩
    change (if level ∈ next :: rest then none else some position) = some p at same
    split at same
    · cases same
    · rename_i outside
      cases same
      exact passed level outside
theorem seek_limit (n drawn : Nat) (position : Position) (left : List Level) :
    (seek n position left).limit drawn = n := by
  cases left <;> rfl
theorem Kept.sought {left : List Level} (kept : Kept draws past s)
    (running : s.process = some p) (making : p.working.making = some n) (passed : Passed past left position) :
    Kept draws past (s.withProcess (p.goto (seek n position left))) := by
  refine kept.worked running rfl rfl rfl ?_ (seek_holds ((kept.running p running).working.drawn n making) passed)
  rw [seek_limit]
  unfold Working.limit
  rw [making]
  exact le_rfl
theorem Working.Holds.before {left : List Level}
    (holds : w.Holds past encoders drawn generation)
    (here : ∀ l, w.passed l = if l ∈ level :: left then none
      else some position) : Passed past (level :: left) position := by
  intro l outside
  refine holds.passed l position ?_
  rw [here,if_neg outside]
theorem Passed.unpublished {left : List Level} (passed : Passed past (level :: left) position)
    (empty : past level = []) : Passed past left position := by
  intro l outside a inside
  by_cases one : l = level
  · rw [one,empty] at inside
    cases inside
  · exact passed l (by simp [one,outside]) a inside
theorem Passed.found {left : List Level} {position found : Position}
    (passed : Passed past (level :: left) position) (records : Records draws past s bound)
    (shown : s.published level = some body)
    (read : positionOf body = some found) : Passed past left (position.max found) := by
  intro l outside a inside
  by_cases one : l = level
  · rw [one] at inside
    obtain ⟨b,last,rfl,before⟩ := records.last shown
    have shownB := records.shown level b last
    have value := shownB.publishes.position found read
    obtain ⟨stop,less⟩ := (before a inside).reaches shownB
    unfold Publication.stop at stop ⊢
    rw [value]
    unfold Position.max
    dsimp only
    exact ⟨stop.trans (Nat.le_max_right _ _),(Nat.lt_succ_of_le less).trans_le (Nat.le_max_right _ _)⟩
  · obtain ⟨stop,less⟩ := passed l (by simp [one,outside]) a inside
    exact ⟨stop.trans (Nat.le_max_left _ _),less.trans_le (Nat.le_max_left _ _)⟩
theorem Kept.placed (kept : Kept draws past s) (running : s.process = some p)
    (here : p.working = .placing n position) :
    Kept draws past (s.withProcess { p with
      generation := some ⟨n,position.nextDiscontinuity,position.nextSequence⟩, lastCopies := fun _ => none, working :=
        .launching }) := by
  obtain ⟨generation,publishing,working⟩ := kept.running p running
  have records := kept.records
  rw [Kept.limit running] at records
  rw [here] at generation publishing working records
  have small : n < s.drawn := working.drawn n rfl
  have unborn : s.encoders n = none := by
    cases known : s.encoders n with
    | none => rfl
    | some e => exact absurd (records.born n e known) (lt_irrefl n)
  refine ⟨records.same rfl rfl rfl small.le,fun q same => ?_⟩
  cases same
  refine ⟨fun g same => ?_,?_,fun m same => (by cases same),fun level other same => (by cases same),fun _ g same => ?_⟩
  · cases same
    refine ⟨fun level a inside => .inr ?_,fun e known => ?_,small⟩
    · obtain ⟨stop,less⟩ := working.passed level position rfl a inside
      exact ⟨(records.below inside).ne,stop,less⟩
    · rw [show s.encoders n = some e from known] at unborn
      cases unborn
  · have later : p.publishing.Holds draws past s.encoders s.drawn p.generation := publishing.later small.le
    have alone : ∀ g : Generation, Standing past s.encoders n g →
        Alone (some ⟨n,position.nextDiscontinuity,position.nextSequence⟩) g := by
      intro g standing g' same serial
      cases same
      exact absurd serial standing.below.ne'
    cases q : p.publishing with
    | resting | masterReading | masterWriting | masterRenaming => trivial
    | reading g level left pending =>
      rw [q] at publishing later
      exact ⟨later.1,alone g publishing.1,later.2.2⟩
    | writing g level left pending copy | moving g level left pending copy =>
      rw [q] at publishing later
      exact ⟨later.1,alone g publishing.1,later.2.2⟩
    | checking g level left pending copy =>
      rw [q] at publishing later
      exact ⟨later.1,alone g publishing.1,later.2.2⟩
  · cases same
    exact unborn

/-! ### Encoders -/

/-- Every encoder is still there, and its windows went on. -/
def Grown (encoders encoders' : Nat → Option Encoder) : Prop :=
  ∀ n e, encoders n = some e → ∃ e', encoders' n = some e' ∧
    ∀ level f k, e.window level = some (f,k) → ∃ f' k', e'.window level = some (f',k') ∧ f ≤ f' ∧ f + k ≤ f' + k'
theorem Reached.grown {first count : Nat} (grown : Grown encoders encoders')
    (reached : Reached encoders n level first count) : Reached encoders' n level first count := by
  obtain ⟨e,f,k,known,window,low,high⟩ := reached
  obtain ⟨e',known',windows⟩ := grown n e known
  obtain ⟨f',k',window',low',high'⟩ := windows level f k window
  exact ⟨e',f',k',known',window',low.trans low',high.trans high'⟩
theorem Ready.grown {copy : Copy} (grown : Grown encoders encoders')
    (ready : Ready draws past encoders g level copy) : Ready draws past encoders' g level copy := by
  obtain ⟨f,k,publishes,started,reached,own⟩ := ready
  exact ⟨f,k,publishes,started,reached.grown grown,own⟩
theorem Publishing.Holds.grown (grown : Grown encoders encoders')
    (stands : ∀ g, Standing past encoders bound g → Alone generation g → Standing past encoders' bound g)
    (holds : q.Holds draws past encoders bound generation) : q.Holds draws past encoders' bound generation := by
  cases q with
  | resting | masterReading | masterWriting | masterRenaming => trivial
  | reading g level left pending =>
    obtain ⟨standing,alone,ready⟩ := holds
    exact ⟨stands g standing alone,alone,fun l copy known => (ready l copy known).grown grown⟩
  | writing g level left pending copy | moving g level left pending copy =>
    obtain ⟨standing,alone,later,nodup,ready⟩ := holds
    exact ⟨stands g standing alone,alone,fun l inside copy known => (later l inside copy known).grown grown,nodup,
      ready.grown grown⟩
  | checking g level left pending copy =>
    obtain ⟨standing,alone,later,nodup⟩ := holds
    exact ⟨stands g standing alone,alone,fun l inside copy known => (later l inside copy known).grown grown,nodup⟩

theorem spawn_encoders (g : Generation) (n : Nat) : (s.spawn g).encoders n =
    if n = g.serial then some ⟨g.startNumber,fun _ => none⟩ else s.encoders n := by
  by_cases one : n = g.serial
  · subst one
    simp [System.spawn]
  · simp [System.spawn,one]
theorem spawn_grown (unstarted : s.encoders g.serial = none) : Grown s.encoders (s.spawn g).encoders := by
  intro n e known
  have other : n ≠ g.serial := by
    rintro rfl
    rw [unstarted] at known
    cases known
  rw [spawn_encoders,if_neg other]
  exact ⟨e,known,fun level f k window => ⟨f,k,window,le_rfl,le_rfl⟩⟩
theorem Kept.spawned (kept : Kept draws past s) (running : s.process = some p)
    (here : p.working = .launching) (generation : p.generation = some g) :
    Kept draws past ((s.spawn g).withProcess (p.goto .running)) := by
  obtain ⟨standing,publishing,working⟩ := kept.running p running
  have records := kept.records
  rw [Kept.limit running] at records
  rw [here] at standing publishing working records
  have unstarted := working.unstarted rfl g generation
  have grown := spawn_grown unstarted
  have stands : ∀ g', Standing past s.encoders s.drawn g' → Alone p.generation g' →
      Standing past (s.spawn g).encoders s.drawn g' := by
    intro g' stood alone
    refine ⟨stood.above,fun e known => ?_,stood.below⟩
    rw [spawn_encoders] at known
    split at known
    · rename_i one
      rw [← alone g generation one.symm]
      cases known
      rfl
    · exact stood.launched e known
  have fresh : ∀ n level raw, s.runs (entry draws n) level = some raw → n ≠ g.serial := by
    rintro n level raw found rfl
    obtain ⟨e,_,_,known,_⟩ := records.files _ level raw found
    rw [unstarted] at known
    cases known
  refine ⟨⟨records.shown,records.order,records.latest,
    fun level a inside => (records.reached level a inside).grown grown,
    fun n level raw found => ?_,fun n e level f k known window => ?_,fun n e known => ?_⟩,fun q same => ?_⟩
  · obtain ⟨e,f,k,known,rest⟩ := records.files n level raw found
    refine ⟨e,f,k,?_,rest⟩
    change (s.spawn g).encoders n = some e
    rw [spawn_encoders,if_neg (fresh n level raw found)]
    exact known
  · change (s.spawn g).encoders n = some e at known
    rw [spawn_encoders] at known
    split at known
    · cases known
      cases window
    · exact records.windows n e level f k known window
  · change (s.spawn g).encoders n = some e at known
    rw [spawn_encoders] at known
    split at known
    · rename_i one
      rw [one]
      exact (standing g generation).below
    · exact records.born n e known
  · cases same
    refine ⟨fun g' known => stands g' (standing g' known) ?_,publishing.grown grown stands,
      .idle rfl (fun _ => rfl) (fun same => by cases same)⟩
    intro g'' same _
    have known : p.generation = some g' := known
    rw [known] at same
    exact (Option.some.inj same).symm
theorem work_kept (kept : Kept draws past s) (running : s.process = some p) (fault : Bool) :
    Kept draws past (s.work p fault) := by
  have holds := (kept.running p running).working
  unfold System.work
  split
  · rename_i here
    split
    · exact kept.idle running rfl (fun _ => rfl) (fun same => by cases same)
    · have drawn : p.working.limit s.drawn = s.drawn := by rw [here]; rfl
      refine kept.worked running rfl rfl rfl ?_ ?_
      · rw [drawn]
        split
        · exact Nat.le_succ _
        · exact le_rfl
      · split
        · exact .idle rfl (fun _ => rfl) (fun same => by cases same)
        · refine ⟨fun n same => ?_,fun level position same => ?_,fun same => ?_⟩
          · cases same
            exact Nat.lt_succ_self _
          · cases same
          · cases same
  · rename_i n here
    split
    · rw [here] at holds
      refine kept.worked running rfl rfl rfl ?_ ⟨fun m same => holds.drawn m same,fun level position same => ?_,
        fun same => ?_⟩
      · rw [here]
        exact le_rfl
      · cases same
      · cases same
    · exact kept.failed running
  · rename_i n count here
    split
    · exact kept.failed running
    · have small : n < s.drawn := holds.drawn n (by rw [here]; rfl)
      refine kept.worked running rfl rfl rfl ?_ (seek_holds small (fun level outside => ?_))
      · rw [here,seek_limit]
        exact le_rfl
      · cases level <;> exact absurd (by decide) outside
  · rename_i n level left position here
    have passed : Passed past (level :: left) position := by
      refine holds.before (fun l => ?_)
      rw [here]
      rfl
    have making : p.working.making = some n := by rw [here]; rfl
    split
    · exact kept.failed running
    · split
      · rename_i missing
        exact kept.sought running making (passed.unpublished (kept.records.unpublished missing))
      · split
        · refine kept.worked running rfl rfl rfl ?_ ?_
          · rw [here]
            exact le_rfl
          · rw [here] at holds
            exact ⟨holds.drawn,holds.passed,fun same => by cases same⟩
        · exact kept.failed running
  · rename_i n level left position here
    have passed : Passed past (level :: left) position := by
      refine holds.before (fun l => ?_)
      rw [here]
      rfl
    have making : p.working.making = some n := by rw [here]; rfl
    split
    · exact kept.failed running
    · split
      · rename_i missing
        exact kept.sought running making (passed.unpublished (kept.records.unpublished missing))
      · rename_i body shown
        split
        · exact kept.failed running
        · rename_i found read
          exact kept.sought running making (passed.found kept.records shown read)
  · rename_i n position here
    exact kept.placed running here
  · rename_i here
    split
    · exact kept.failed running
    · rename_i g generation
      split
      · exact kept.failed running
      · split
        · exact kept.idle running rfl (fun _ => rfl) (fun same => by cases same)
        · exact kept.spawned running here generation
  · split
    · exact kept.idle running rfl (fun _ => rfl) (fun same => by cases same)
    · split
      · exact kept.failed running
      · exact kept.idle running rfl (fun _ => rfl) (fun same => by cases same)
  · exact kept
  · exact kept

/-! ### The publication loop -/

theorem advance_holds {pending : Level → Option Copy} (standing : Standing past encoders bound g)
    (alone : Alone p.generation g) (left : List Level)
    (ready : ∀ l ∈ left, ∀ copy, pending l = some copy → Ready draws past encoders g l copy) (nodup : left.Nodup) :
    (p.advance g pending left).Holds draws past encoders bound p.generation := by
  induction left with
  | nil =>
    unfold Process.advance
    split <;> trivial
  | cons level rest ih =>
    unfold Process.advance
    split
    · trivial
    · split
      · trivial
      · rename_i copy known
        split
        · exact ih (fun l inside => ready l (List.mem_cons_of_mem _ inside)) nodup.of_cons
        · exact ⟨standing,alone,fun l inside => ready l (List.mem_cons_of_mem _ inside),nodup,
            ready level List.mem_cons_self copy known⟩
theorem read_ready {raw body : Text} (records : Records draws past s bound)
    (standing : Standing past s.encoders bound g) (found : s.runs (entry draws g.serial) level = some raw)
    (made : bodyOf (entry draws g.serial) level.name g.discontinuity raw = some body) :
    Ready draws past s.encoders g level ⟨raw,body⟩ := by
  obtain ⟨e,f,k,known,window,encoded⟩ := records.files _ level raw found
  refine ⟨f,k,bodyOf_publishes (entry_named _) (name_named level) encoded made,?_,⟨e,f,k,known,window,le_rfl,le_rfl⟩,
    fun a inside own => ?_⟩
  · rw [← standing.launched e known]
    exact records.windows _ e level f k known window
  · obtain ⟨e',f',k',known',window',low,high⟩ := records.reached level a inside
    rw [own,known] at known'
    cases known'
    rw [window] at window'
    cases window'
    exact ⟨low,high⟩
theorem take_holds {left : List Level} {pending : Level → Option Copy} {raw : Text}
    (records : Records draws past s bound) (standing : Standing past s.encoders bound g) (alone : Alone p.generation g)
    (ready : ∀ l copy, pending l = some copy → Ready draws past s.encoders g l copy)
    (found : s.runs (entry draws g.serial) level = some raw) :
    (p.take draws g level left pending raw).Holds draws past s.encoders bound p.generation := by
  unfold Process.take
  split
  · trivial
  · split
    · trivial
    · rename_i body made
      have more : ∀ l copy, Function.update pending level (some ⟨raw,body⟩) l = some copy →
          Ready draws past s.encoders g l copy := by
        intro l copy known
        by_cases one : l = level
        · subst one
          rw [Function.update_self] at known
          cases known
          exact read_ready records standing found made
        · rw [Function.update_of_ne one] at known
          exact ready l copy known
      cases left with
      | nil => exact advance_holds standing alone _ (fun l _ => more l) (by decide)
      | cons next rest => exact ⟨standing,alone,more⟩

theorem goesPast_eq {body entry level : Text} {d f k : Nat} (publishes : Publishes body entry level d f k)
    (position : Position)
    (before : goesPast d body position = false) : f + k ≤ position.nextSequence ∧ d < position.nextDiscontinuity := by
  have length : (uris body).length = k := by rw [publishes.segments]; simp
  unfold goesPast endOf at before
  rw [publishes.sequence,length,Bool.or_eq_false_iff,decide_eq_false_iff_not,decide_eq_false_iff_not] at before
  exact ⟨not_lt.mp before.1,not_le.mp before.2⟩
/-- What was published, with one more publication of a rendition. -/
def added (past : Level → List Publication) (level : Level) (c : Publication) : Level → List Publication :=
  Function.update past level (past level ++ [c])
theorem added_mem {level l : Level} {c a : Publication} :
    a ∈ added past level c l ↔ a ∈ past l ∨ l = level ∧ a = c := by
  unfold added
  by_cases one : l = level
  · subst one
    simp
  · simp [one]
theorem added_last (s : System) (level : Level) (c : Publication)
    (latest : ∀ l, s.published l = (past l).getLast?.map (·.body)) (l : Level) :
    (s.replace level c.body).published l = (added past level c l).getLast?.map (·.body) := by
  unfold System.replace added
  by_cases one : l = level
  · subst one
    simp
  · simp [one,latest l]
theorem Kept.replaced {left : List Level} {pending : Level → Option Copy} {copy : Copy}
    (kept : Kept draws past s) (running : s.process = some p) (here : p.publishing = .moving g level left pending copy)
    (early : p.overtaken g level copy.body = false) :
    ∃ c, Kept draws (added past level c) ((s.replace level copy.body).withProcess
      (p.on (.checking g level left pending copy))) := by
  obtain ⟨generation,publishing,working⟩ := kept.running p running
  have records := kept.records
  rw [Kept.limit running] at records
  rw [here] at publishing
  obtain ⟨standing,alone,later,nodup,f,k,publishes,started,reached,own⟩ := publishing
  unfold Process.overtaken at early
  rw [Bool.or_eq_false_iff] at early
  obtain ⟨current,sought⟩ := early
  have apart : ∀ l ∈ left, l ≠ level := fun l inside same => (List.nodup_cons.mp nodup).1 (same ▸ inside)
  refine ⟨⟨g,f,k,copy.body⟩,
    ⟨⟨?_,?_,added_last s level ⟨g,f,k,copy.body⟩ records.latest,?_,records.files,records.windows,records.born⟩,?_⟩⟩
  · intro l a inside
    rcases added_mem.mp inside with inside | ⟨rfl,rfl⟩
    · exact records.shown l a inside
    · exact ⟨publishes,started⟩
  · intro l
    unfold added
    by_cases one : l = level
    · subst one
      rw [Function.update_self,List.pairwise_append]
      refine ⟨records.order l,List.pairwise_singleton _ _,fun a inside b last => ?_⟩
      rw [List.mem_singleton.mp last]
      rcases standing.above l a inside with same | behind
      · exact .same same (own a inside same).1 (own a inside same).2
      · exact .behind behind
    · rw [Function.update_of_ne one]
      exact records.order l
  · intro l a inside
    rcases added_mem.mp inside with inside | ⟨rfl,rfl⟩
    · exact records.reached l a inside
    · exact reached
  · intro q same
    cases same
    have stands : ∀ g', Standing past s.encoders (p.working.limit s.drawn) g' →
        (g = g' ∨ (⟨g,f,k,copy.body⟩ : Publication).Behind g') →
        Standing (added past level ⟨g,f,k,copy.body⟩) s.encoders (p.working.limit s.drawn) g' := by
      intro g' stood placed
      refine ⟨fun l a inside => ?_,stood.launched,stood.below⟩
      rcases added_mem.mp inside with inside | ⟨rfl,rfl⟩
      · exact stood.above l a inside
      · exact placed
    refine ⟨fun g' known => stands g' (generation g' known) ?_,
      ⟨stands g standing (.inl rfl),alone,fun l inside copy' known => ?_,
      nodup.of_cons⟩,working.drawn,fun l position known a inside => ?_,working.unstarted⟩
    · have known : p.generation = some g' := known
      by_cases one : g' = g
      · exact .inl one.symm
      · rw [known,Option.any_some,Bool.and_eq_false_iff] at current
        have before : goesPast g.discontinuity copy.body ⟨g'.startNumber,g'.discontinuity⟩ = false := by
          rcases current with same | before
          · rw [decide_eq_false_iff_not,not_not] at same
            exact absurd same one
          · exact before
        obtain ⟨stop,less⟩ := goesPast_eq publishes _ before
        exact .inr ⟨fun serial => one (alone g' known serial.symm),stop,less⟩
    · obtain ⟨f',k',publishes',started',reached',own'⟩ := later l inside copy' known
      refine ⟨f',k',publishes',started',reached',fun a there same => ?_⟩
      rcases added_mem.mp there with there | ⟨one,_⟩
      · exact own' a there same
      · exact absurd one (apart l inside)
    · have passed : p.working.passed l = some position := known
      rcases added_mem.mp inside with inside | ⟨rfl,rfl⟩
      · exact working.passed l position passed a inside
      · rw [passed,Option.any_some] at sought
        exact goesPast_eq publishes position sought
theorem publish_kept (kept : Kept draws past s) (running : s.process = some p) (fault : Bool)
    (intime : timely s (.publish fault) = true) :
    ∃ past', Kept draws past' (s.publish draws p fault) ∧ ∀ level, ∀ a ∈ past level, a ∈ past' level := by
  have holds := (kept.running p running).publishing
  have quiet : ∀ q : Publishing, q.Holds draws past s.encoders (p.working.limit s.drawn) p.generation →
      ∃ past', Kept draws past' (s.withProcess (p.on q)) ∧ ∀ level, ∀ a ∈ past level, a ∈ past' level :=
    fun q holds => ⟨past,kept.publishedOn running holds,fun _ _ inside => inside⟩
  have still : ∃ past', Kept draws past' s ∧ ∀ level, ∀ a ∈ past level, a ∈ past' level :=
    ⟨past,kept,fun _ _ inside => inside⟩
  unfold System.publish
  split
  · split
    · exact still
    · split
      · exact still
      · rename_i g generation
        refine quiet _ ⟨(kept.running p running).generation g generation,fun g' same _ => ?_,
          fun l copy known => by cases known⟩
        rw [generation] at same
        exact (Option.some.inj same).symm
  · rename_i g level left pending here
    rw [here] at holds
    obtain ⟨standing,alone,ready⟩ := holds
    refine quiet _ ?_
    split
    · trivial
    · split
      · trivial
      · rename_i raw found
        have records := kept.records
        rw [Kept.limit running] at records
        exact take_holds records standing alone ready found
  · rename_i g level left pending copy here
    rw [here] at holds
    refine quiet _ ?_
    split
    · trivial
    · exact holds
  · rename_i g level left pending copy here
    cases fault with
    | true => exact quiet _ trivial
    | false =>
      have early : p.overtaken g level copy.body = false := by
        unfold timely at intime
        rw [running,Option.all_some] at intime
        dsimp only at intime
        rw [here] at intime
        exact Bool.not_eq_true' _ |>.mp intime
      obtain ⟨c,kept'⟩ := kept.replaced running here early
      exact ⟨_,kept',fun l a inside => added_mem.mpr (.inl inside)⟩
  · rename_i g level left pending copy here
    rw [here] at holds
    obtain ⟨standing,alone,ready,nodup⟩ := holds
    split
    · exact quiet _ trivial
    · have moved : Kept draws past (s.withProcess (p.published level copy.raw)) := by
        refine ⟨kept.records.same rfl rfl rfl (by rw [Kept.limit running]; rfl),fun q same => ?_⟩
        cases same
        obtain ⟨generation,publishing,working⟩ := kept.running p running
        exact ⟨generation,publishing,working⟩
      refine ⟨past,moved.publishedOn rfl ?_,fun _ _ inside => inside⟩
      exact advance_holds (p := p.published level copy.raw) standing alone left ready nodup
  · refine quiet _ ?_
    split <;> trivial
  · refine quiet _ ?_
    split <;> trivial
  · split
    · exact quiet _ trivial
    · have wrote : Kept draws past { s with master := some masterText } := by
        refine ⟨kept.records.same rfl rfl rfl le_rfl,fun q same => ?_⟩
        obtain ⟨generation,publishing,working⟩ := kept.running q same
        exact ⟨generation,publishing,working⟩
      exact ⟨past,wrote.publishedOn running trivial,fun _ _ inside => inside⟩

/-! ### Runs -/

theorem Kept.aside (kept : Kept draws past s) (published : s'.published = s.published) (runs : s'.runs = s.runs)
    (encoders : s'.encoders = s.encoders) (drawn : s'.drawn = s.drawn)
    (process : s'.process = none) : Kept draws past s' := by
  have bound : s.limit ≤ s'.limit := by
    unfold System.limit
    rw [process,drawn]
    cases running : s.process with
    | none => exact le_rfl
    | some p => exact (kept.running p running).working.small
  refine ⟨kept.records.same published runs encoders bound,fun p same => ?_⟩
  rw [process] at same
  cases same
theorem start_kept (kept : Kept draws past s) (none : s.process = none) : Kept draws past (s.withProcess .initial) := by
  have bound : s.limit = s.drawn := by
    unfold System.limit
    rw [none]
    rfl
  have records := kept.records
  rw [bound] at records
  refine ⟨records.same rfl rfl rfl le_rfl,fun p same => ?_⟩
  cases same
  exact ⟨fun g same => (by cases same),trivial,.idle rfl (fun _ => rfl) (fun same => by cases same)⟩

theorem encode_encoders {serial : Nat} {first count : Nat} {raw : Text}
    (known : s.encoders serial = some encoder) (n : Nat) : (s.encode draws serial level first count raw).encoders n =
      if n = serial then some { encoder with window := Function.update encoder.window level (some (first,count)) }
        else s.encoders n := by
  unfold System.encode
  rw [known]
  by_cases one : n = serial
  · subst one
    simp
  · simp [one]
theorem lawful_window {serial : Nat} {first count f k : Nat} {raw : Text}
    (legal : lawful s (.encode serial level first count raw) = true) (known : s.encoders serial = some encoder)
    (window : encoder.window level = some (f,k)) : f ≤ first ∧ f + k ≤ first + count := by
  unfold lawful at legal
  dsimp only at legal
  rw [known,Option.all_some,window,Bool.and_eq_true] at legal
  have ends := legal.2
  rw [Bool.and_eq_true,decide_eq_true_eq,decide_eq_true_eq] at ends
  exact ends
theorem lawful_started {serial : Nat} {first count : Nat} {raw : Text}
    (legal : lawful s (.encode serial level first count raw) = true) (known : s.encoders serial = some encoder)
    (windows : ∀ f k, encoder.window level = some (f,k) → encoder.startNumber ≤ f) : encoder.startNumber ≤ first := by
  cases window : encoder.window level with
  | none =>
    unfold lawful at legal
    dsimp only at legal
    rw [known,Option.all_some,window,Bool.and_eq_true] at legal
    exact of_decide_eq_true legal.2
  | some last => exact (windows last.1 last.2 window).trans (lawful_window legal known window).1
theorem encode_kept (fresh : Function.Injective (entry draws)) (kept : Kept draws past s) {serial : Nat}
    {first count : Nat} {raw : Text} (legal : lawful s (.encode serial level first count raw) = true) :
    Kept draws past (s.encode draws serial level first count raw) := by
  cases known : s.encoders serial with
  | none =>
    unfold System.encode
    rw [known]
    exact kept
  | some encoder =>
    have after : ∀ n, (s.encode draws serial level first count raw).encoders n =
        if n = serial then some { encoder with window := Function.update encoder.window level (some (first,count)) }
        else s.encoders n := encode_encoders known
    have process : (s.encode draws serial level first count raw).process = s.process := by
      unfold System.encode
      rw [known]
    have published : (s.encode draws serial level first count raw).published = s.published := by
      unfold System.encode
      rw [known]
    have drawn : (s.encode draws serial level first count raw).drawn = s.drawn := by
      unfold System.encode
      rw [known]
    have runs : (s.encode draws serial level first count raw).runs = Function.update s.runs (entry draws serial)
        (Function.update (s.runs (entry draws serial)) level (some raw)) := by
      unfold System.encode
      rw [known]
    have bound : (s.encode draws serial level first count raw).limit = s.limit := by
      unfold System.limit
      rw [process,drawn]
    generalize s.encode draws serial level first count raw = t at *
    have grown : Grown s.encoders t.encoders := by
      intro n e there
      rw [after]
      split
      · rename_i one
        rw [one,known] at there
        cases there
        refine ⟨_,rfl,fun l f k window => ?_⟩
        by_cases here : l = level
        · subst here
          refine ⟨first,count,?_,lawful_window legal known window⟩
          simp
        · refine ⟨f,k,?_,le_rfl,le_rfl⟩
          simp [here,window]
      · exact ⟨e,there,fun l f k window => ⟨f,k,window,le_rfl,le_rfl⟩⟩
    have origin : ∀ n e, t.encoders n = some e → ∃ e', s.encoders n = some e' ∧ e'.startNumber = e.startNumber := by
      intro n e there
      rw [after] at there
      split at there
      · rename_i one
        cases there
        rw [one]
        exact ⟨encoder,known,rfl⟩
      · exact ⟨e,there,rfl⟩
    have stands : ∀ g (b : Nat), Standing past s.encoders b g → Standing past t.encoders b g := by
      intro g b stood
      refine ⟨stood.above,fun e there => ?_,stood.below⟩
      obtain ⟨e',there',same⟩ := origin _ e there
      rw [← same]
      exact stood.launched e' there'
    have records := kept.records
    refine ⟨⟨records.shown,records.order,by rw [published]; exact records.latest,
      fun l a inside => (records.reached l a inside).grown grown,fun n l r found => ?_,fun n e l f k there window => ?_,
      fun n e there => ?_⟩,fun p same => ?_⟩
    · rw [runs] at found
      rw [after]
      by_cases one : n = serial
      · subst one
        rw [Function.update_self] at found
        rw [if_pos rfl]
        by_cases here : l = level
        · subst here
          rw [Function.update_self] at found
          cases found
          unfold lawful at legal
          dsimp only at legal
          rw [Bool.and_eq_true] at legal
          exact ⟨_,first,count,rfl,by simp,of_decide_eq_true legal.1⟩
        · rw [Function.update_of_ne here] at found
          obtain ⟨e,f,k,there,window,encoded⟩ := records.files n l r found
          rw [known] at there
          cases there
          exact ⟨_,f,k,rfl,by simp [here,window],encoded⟩
      · rw [Function.update_of_ne (fun same => one (fresh same))] at found
        rw [if_neg one]
        exact records.files n l r found
    · rw [after] at there
      split at there
      · cases there
        dsimp only at window ⊢
        by_cases here : l = level
        · subst here
          simp only [Function.update_self,Option.some.injEq,Prod.mk.injEq] at window
          obtain ⟨rfl,rfl⟩ := window
          exact lawful_started legal known (fun f k window => records.windows serial encoder _ f k known window)
        · rw [Function.update_of_ne here] at window
          exact records.windows serial encoder l f k known window
      · exact records.windows n e l f k there window
    · obtain ⟨e',there',_⟩ := origin n e there
      rw [bound]
      exact records.born n e' there'
    · rw [process] at same
      obtain ⟨generation,publishing,working⟩ := kept.running p same
      rw [← drawn] at generation publishing working
      refine ⟨fun g known' => stands g _ (generation g known'),
        publishing.grown grown (fun g stood _ => stands g _ stood),
        working.drawn,working.passed,fun launching g known' => ?_⟩
      have none := working.unstarted launching g known'
      rw [after]
      split
      · rename_i one
        rw [one,known] at none
        cases none
      · exact none
theorem prune_kept (kept : Kept draws past s) (name : Text) :
    Kept draws past { s with runs := Function.update s.runs name (fun _ => none) } := by
  obtain ⟨⟨shown,order,latest,reached,files,windows,born⟩,running⟩ := kept
  refine ⟨⟨shown,order,latest,reached,fun n level raw found => ?_,windows,born⟩,fun p same => ?_⟩
  · by_cases one : entry draws n = name
    · simp [one] at found
    · dsimp only at found
      rw [Function.update_of_ne one] at found
      exact files n level raw found
  · obtain ⟨generation,publishing,working⟩ := running p same
    exact ⟨generation,publishing,working⟩
theorem stop_kept (kept : Kept draws past s) (running : s.process = some p) :
    Kept draws past (s.withProcess { p with isStopped := true }) := by
  refine ⟨kept.records.same rfl rfl rfl (by rw [Kept.limit running]; rfl),fun q same => ?_⟩
  cases same
  obtain ⟨generation,publishing,working⟩ := kept.running p running
  exact ⟨generation,publishing,working⟩
theorem step_kept (fresh : Function.Injective (entry draws)) (kept : Kept draws past s) (step : Step)
    (legal : lawful s step = true)
    (intime : timely s step = true) : ∃ past', Kept draws past' (s.step draws step) ∧
      ∀ level, ∀ a ∈ past level, a ∈ past' level := by
  have quiet : ∀ {t}, Kept draws past t → ∃ past', Kept draws past' t ∧ ∀ level, ∀ a ∈ past level, a ∈ past' level :=
    fun kept' => ⟨past,kept',fun _ _ inside => inside⟩
  unfold System.step
  cases step with
  | start =>
    dsimp only
    split
    · rename_i none
      exact quiet (start_kept kept (Option.isNone_iff_eq_none.mp none))
    · exact quiet kept
  | work fault =>
    dsimp only
    split
    · exact quiet kept
    · rename_i p running
      exact quiet (work_kept kept running fault)
  | publish fault =>
    dsimp only
    split
    · exact quiet kept
    · rename_i p running
      exact publish_kept kept running fault intime
  | encode serial level first count raw => exact quiet (encode_kept fresh kept legal)
  | prune name =>
    dsimp only
    split
    · exact quiet kept
    · split
      · split
        · exact quiet kept
        · exact quiet (prune_kept kept name)
      · exact quiet kept
  | stop =>
    dsimp only
    split
    · exact quiet kept
    · rename_i p running
      exact quiet (stop_kept kept running)
  | finish =>
    dsimp only
    split
    · exact quiet kept
    · split
      · split
        · exact quiet (kept.aside rfl rfl rfl rfl rfl)
        · exact quiet kept
      · split
        · exact quiet (kept.aside rfl rfl rfl rfl rfl)
        · exact quiet kept
      · exact quiet kept
  | crash => exact quiet (kept.aside rfl rfl rfl rfl rfl)
theorem empty_kept : Kept draws (fun _ => []) System.empty := by
  refine ⟨⟨?_,?_,?_,?_,?_,?_,?_⟩,?_⟩
  · intro level a inside
    cases inside
  · exact fun level => List.Pairwise.nil
  · exact fun level => rfl
  · intro level a inside
    cases inside
  · intro n level raw found
    cases found
  · intro n e level f k known
    cases known
  · intro n e known
    cases known
  · intro p same
    cases same
/-- Everything a run shows follows what was published before it, and each content the
    ones before. -/
theorem run_follows (fresh : Function.Injective (entry draws)) (steps : List Step) :
    ∀ {past : Level → List Publication} {s : System},
    Kept draws past s → s.passes draws lawful steps = true → s.passes draws timely steps = true → ∀ level,
      (∀ a ∈ past level, ∀ b ∈ s.contents draws level steps, Follows a.body b) ∧
        (s.contents draws level steps).Pairwise Follows := by
  have shows : ∀ {past : Level → List Publication} {s : System}, Kept draws past s →
      ∀ level, ∀ b ∈ (s.published level).toList,∃ c ∈ past level, c.body = b ∧ ∀ a ∈ past level, Follows a.body b := by
    intro past s kept level b inside
    obtain ⟨c,there,same,before⟩ := kept.records.last (Option.mem_toList.mp inside)
    refine ⟨c,there,same,fun a earlier => ?_⟩
    rw [← same]
    exact (before a earlier).follows (kept.records.shown level a earlier) (kept.records.shown level c there)
  have single : ∀ content : Option Text, content.toList.Pairwise Follows := by
    intro content
    cases content with
    | none => exact .nil
    | some body => exact List.pairwise_singleton _ _
  induction steps with
  | nil =>
    intro past s kept _ _ level
    refine ⟨fun a earlier b inside => ?_,single _⟩
    obtain ⟨_,_,_,follows⟩ := shows kept level b inside
    exact follows a earlier
  | cons step rest ih =>
    intro past s kept legal intime level
    unfold System.passes at legal intime
    rw [Bool.and_eq_true] at legal intime
    obtain ⟨past',kept',more⟩ := step_kept fresh kept step legal.1 intime.1
    obtain ⟨after,ordered⟩ := ih kept' legal.2 intime.2 level
    unfold System.contents
    refine ⟨fun a earlier b inside => ?_,List.pairwise_append.mpr ⟨single _,ordered,fun b now b' later => ?_⟩⟩
    · rcases List.mem_append.mp inside with now | later
      · obtain ⟨_,_,_,follows⟩ := shows kept level b now
        exact follows a earlier
      · exact after a (more level a earlier) b later
    · obtain ⟨c,there,rfl,_⟩ := shows kept level b now
      exact after c (more level c there) b' later

/-- The contents of a published playlist: one media sequence number never names two
    segments, no sequence number is lowered and a new generation raises the discontinuity
    sequence, in every run without an overtaken publication. -/
theorem numbers_kept (draws : Nat → Draw) (fresh : Function.Injective (entry draws)) (steps : List Step)
    (legal : System.empty.passes draws lawful steps = true) (intime : System.empty.passes draws timely steps = true)
    (level : Level) :
    (System.empty.contents draws level steps).Pairwise Follows :=
  (run_follows fresh steps empty_kept legal intime level).2

end

/-! ### Two runs -/

def countedDraws (n : Nat) : Draw := ⟨n,List.replicate 6 0⟩
theorem counted_fresh : Function.Injective (entry countedDraws) := by
  intro a b same
  unfold entry entryName countedDraws at same
  dsimp only at same
  rw [List.append_cancel_right_eq,List.append_cancel_left_eq] at same
  have read := number_digits a
  rw [same,number_digits] at read
  exact (Option.some.inj read).symm
/-- What an encoder writes for so many segments. -/
def listing (first count : Nat) : Text :=
  lit "#EXTM3U\n#EXT-X-VERSION:3\n#EXT-X-TARGETDURATION:2\n" ++ tagLine mediaTag first ++ '\n' ::
    (List.range' first count).flatMap (fun n => lit "#EXTINF:2,\n" ++ segmentName n ++ ['\n'])
/-- The encoder loop makes a generation and starts its encoder; nothing is published yet. -/
def launch : List Step := List.replicate 7 (.work false)
/-- Both playlists of a generation. -/
def encodeBoth (serial first count : Nat) : List Step :=
  renditions.map (fun level => .encode serial level first count (listing first count))
/-- The first publication waits for its rename while the encoder ends and the next one
    starts; then the next one is published. -/
def overtakenSteps : List Step :=
  .start :: launch ++ encodeBoth 0 0 1 ++ List.replicate 4 (.publish false) ++ .work false :: launch ++
    List.replicate 2 (.publish false) ++ encodeBoth 1 0 1 ++ List.replicate 5 (.publish false)
/-- Number 0 is first a segment of one generation and then a segment of the next, and the
    discontinuity sequence stays. -/
theorem number_reused :
    ¬ ∀ (draws : Nat → Draw) (steps : List Step), Function.Injective (entry draws) →
      System.empty.passes draws lawful steps = true →
        ∀ level, (System.empty.contents draws level steps).Pairwise Follows := by
  intro claim
  have ordered := claim countedDraws overtakenSteps counted_fresh (by decide +kernel) .low
  have shape : ∃ a b : Text, List.Sublist [a,b] (System.empty.contents countedDraws .low overtakenSteps) ∧
      discontinuitySequence a = discontinuitySequence b ∧
      uris a = [address (entry countedDraws 0) (lit "low") (segmentName 0)] ∧
      uris b = [address (entry countedDraws 1) (lit "low") (segmentName 0)] := by
    refine ⟨(bodyOf (entry countedDraws 0) (lit "low") 0 (listing 0 1)).getD [],
      (bodyOf (entry countedDraws 1) (lit "low") 0 (listing 0 1)).getD [],?_,?_,?_,?_⟩ <;> decide +kernel
  obtain ⟨a,b,inside,same,first,second⟩ := shape
  have follows := ordered.sublist inside
  rw [List.pairwise_pair] at follows
  have raised := follows.raised _ (by rw [first]; exact List.mem_singleton_self _) _
      (by rw [second]; exact List.mem_singleton_self _)
    (by decide +kernel)
  rw [same] at raised
  exact lt_irrefl _ raised
/-- A generation publishes twice, its encoder ends, and the next one goes on after it. -/
def orderlySteps : List Step :=
  .start :: launch ++ encodeBoth 0 0 1 ++ List.replicate 12 (.publish false) ++ encodeBoth 0 0 2 ++
    List.replicate 10 (.publish false) ++
    List.replicate 10 (.work false) ++ encodeBoth 1 2 1 ++ List.replicate 5 (.publish false)
theorem numbers_kept_two_generations :
    (System.empty.contents countedDraws .low orderlySteps).dedup.length = 3 ∧
      (System.empty.contents countedDraws .low orderlySteps).Pairwise Follows :=
  ⟨by decide +kernel,numbers_kept countedDraws counted_fresh orderlySteps (by decide +kernel) (by decide +kernel) .low⟩

end RelaySwarm.Broadcast
