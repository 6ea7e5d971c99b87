import RelaySwarm.Held
import RelaySwarm.LedgerText
import RelaySwarm.LinkSilence
import RelaySwarm.LinkTexts

/-!
What a remote knows of the held objects. Once every HAVE message sent to it was read, it
knows of no object that is not held (`Tracks`), as long as no trim drops more objects
than a receiver reads keys from one message. Whatever is dropped, the bytes counted are
those of the objects held (`Swarm.Counted`).
-/
namespace RelaySwarm.Held
open Script Links
open Ledger (numbered numbered_hex numbered_nodup)

/-! ### Sizes -/

def total (held : IndexMap String Nat) : Nat := held.values.sum
/-- The bytes that are counted are those of the objects held. -/
def Swarm.Counted (s : Swarm) : Prop := s.heldBytes = total s.held

theorem total_erase {held : IndexMap String Nat} {key : String} {size : Nat} (found : held.get? key = some size) :
    total held = size + total (held.erase key) := by
  have sum : ∀ entries : List (String × Nat), (entries.map (·.1)).Nodup → (key,size) ∈ entries →
      (entries.map (·.2)).sum = size + ((entries.filter (fun entry => decide (entry.1 ≠ key))).map (·.2)).sum := by
    intro entries
    induction entries with
    | nil => intro _ member; cases member
    | cons entry rest ih =>
      intro distinct member
      obtain ⟨first,later⟩ := List.nodup_cons.mp distinct
      rcases List.mem_cons.mp member with rfl | inside
      · have others : rest.filter (fun entry => decide (entry.1 ≠ key)) = rest := by
          refine List.filter_eq_self.mpr (fun entry inside => decide_eq_true ?_)
          rintro rfl
          exact first (List.mem_map.mpr ⟨entry,inside,rfl⟩)
        rw [List.filter_cons_of_neg (by simp),others]
        rfl
      · have differs : entry.1 ≠ key := by
          rintro rfl
          exact first (List.mem_map.mpr ⟨_,inside,rfl⟩)
        rw [List.filter_cons_of_pos (by simpa using differs),List.map_cons,List.map_cons,List.sum_cons,List.sum_cons,
          ih later inside]
        omega
  exact sum held.entries held.distinct (IndexMap.mem_entries.mpr found)
theorem total_insert {held : IndexMap String Nat} {key : String} (absent : held.contains key = false) (size : Nat) :
    total (held.insert key size) = total held + size := by
  unfold total IndexMap.insert
  rw [dif_neg (by rw [absent]; exact Bool.false_ne_true)]
  simp [IndexMap.values]
theorem contains_taken (held : IndexMap String Nat) (key other : String) (size : Nat) :
    (held.insert key size).contains other = true ↔ other = key ∨ held.contains other = true := by
  unfold IndexMap.contains
  rw [IndexMap.get?_insert]
  split <;> simp_all

/-! ### Trimming -/

/-- What is left of the objects is what was not evicted. -/
structure Trims (held : IndexMap String Nat) (bytes : Int) (t : Trimmed) : Prop where
  counted : bytes = total held → t.bytes = total t.held
  left : ∀ key, t.held.contains key = true ↔ held.contains key = true ∧ key ∉ t.evicted
  evicted : ∀ key ∈ t.evicted, held.contains key = true

theorem Trims.none (held : IndexMap String Nat) (bytes : Int) : Trims held bytes ⟨held,bytes,[]⟩ :=
  ⟨id,fun _ => by simp,fun _ member => nomatch member⟩
theorem trim_trims (maxHeldSegments : Nat) (limit : Int) (pinned : String → Bool) (left : Nat) :
    ∀ (held : IndexMap String Nat)
      (bytes : Int), Trims held bytes (trim maxHeldSegments limit pinned left held bytes) := by
  induction left with
  | zero => exact Trims.none
  | succ left ih =>
    intro held bytes
    unfold trim
    split
    · split
      · exact .none held bytes
      · rename_i key size found
        have entry : held.get? key = some size := IndexMap.mem_entries.mp (List.mem_of_find?_eq_some found)
        have present : held.contains key = true := by rw [IndexMap.contains,entry]; rfl
        obtain ⟨counted,remain,evicted⟩ := ih (held.erase key) (bytes - size)
        constructor
        · intro same
          refine counted ?_
          have split := total_erase entry
          omega
        · intro other
          rw [remain,contains_erase,List.mem_cons]
          tauto
        · intro other member
          rcases List.mem_cons.mp member with rfl | later
          · exact present
          · exact ((contains_erase held key other).mp (evicted other later)).2
    · exact .none held bytes
theorem trimmed_trims (s : Swarm) (limit : Int) (pinned : String → Bool) :
    Trims s.held s.heldBytes (s.trimmed limit pinned) :=
  trim_trims _ _ _ _ _ _

@[simp] theorem tell_held (s : Swarm) (send : Link → Link) : (s.tell send).held = s.held := rfl
@[simp] theorem tell_heldBytes (s : Swarm) (send : Link → Link) : (s.tell send).heldBytes = s.heldBytes := rfl
@[simp] theorem tell_links (s : Swarm) (send : Link → Link) : (s.tell send).links = s.links.map (·.say send) := rfl

/-! ### The bytes that are counted -/

variable {s : Swarm}

theorem taken_counted (counted : s.Counted) {key : String} (absent : s.held.contains key = false) (size : Nat) :
    (s.taken key size).Counted := by
  unfold Swarm.Counted Swarm.taken at *
  rw [total_insert absent,counted]
  simp
theorem declines_absent {key : String} {size : Nat} {allowed : Bool} (taken : ¬ s.declines key size allowed = true) :
    s.held.contains key = false := by
  unfold Swarm.declines at taken
  simp only [Bool.or_eq_true,not_or,Bool.not_eq_true] at taken
  exact taken.1.2
theorem hold_counted (counted : s.Counted) (key : String) (size reservation : Nat) (pinned : String → Bool)
    (allowed still : Bool) :
    (s.hold key size reservation pinned allowed still).Counted := by
  unfold Swarm.hold
  split
  · exact counted
  · rename_i takes
    have bytes := (trimmed_trims (s.taken key size) (s.options.maxHeldBytes - reservation) pinned).counted
      (taken_counted counted (declines_absent takes) size)
    dsimp only
    split <;> exact bytes
theorem dropHeld_counted (counted : s.Counted) (key : String) : (s.dropHeld key).Counted := by
  unfold Swarm.dropHeld
  split
  · exact counted
  · rename_i size found
    have split := total_erase found
    unfold Swarm.Counted at *
    dsimp only [tell_held,tell_heldBytes]
    omega
theorem trimHeld_counted (counted : s.Counted) (limit : Int) (pinned : String → Bool) :
    (s.trimHeld limit pinned).Counted := by
  have bytes := (trimmed_trims s limit pinned).counted counted
  unfold Swarm.trimHeld
  dsimp only
  split <;> exact bytes
theorem run_append (parse : String → Option Json) (s : Swarm) (first second : List Step) :
    s.run parse (first ++ second) = (s.run parse first).run parse second := List.foldl_append
theorem step_counted (parse : String → Option Json) (counted : s.Counted) (step : Step) :
    (s.step parse step).Counted := by
  cases step with
  | hold key size reservation pinned allowed still =>
    exact hold_counted counted key size reservation pinned allowed still
  | dropHeld key => exact dropHeld_counted counted key
  | reserve size pinned => exact trimHeld_counted counted _ pinned
  | withdraw rendition => rfl
  | linkOpened near far now allowed renditions => exact counted
  | linkClosed index => exact counted
  | say index message =>
    unfold Swarm.step
    dsimp only
    split <;> exact counted
  | deliver index now => exact counted
  | remote index input => exact counted
  | stop => rfl
theorem run_counted (parse : String → Option Json) (counted : s.Counted) (steps : List Step) :
    (s.run parse steps).Counted := by
  induction steps generalizing s with
  | nil => exact counted
  | cons step rest ih => exact ih (step_counted parse counted step)

/-! ### What a remote is told -/

def Connection.known (c : Connection) : IndexMap String Unit := c.channel.foldl heard c.far.haves
/-- The link can send, each of its messages can be read whole, and the remote will know of
    no object that is not held, unless its link is closed. -/
structure Tracks (held : IndexMap String Nat) (c : Connection) : Prop where
  sends : c.near.silent = false
  drained : c.near.events = []
  brief : ∀ message ∈ c.channel, message.Brief
  known : c.far.closed = false → ∀ key, c.known.contains key = true → held.contains key = true
/-- Hashes are held, and every remote is told of what is dropped. -/
structure Advertised (s : Swarm) : Prop where
  hashed : ∀ key, s.held.contains key = true → Hashed key
  tracks : ∀ c ∈ s.links, Tracks s.held c

theorem other_brief {message : Message} (other : message.have = none) : message.Brief := by
  constructor
  · intro keys haves
    rw [other] at haves
    cases haves
  · rintro keys rfl
    cases other
  · rintro add del rfl
    cases other
theorem heard_other {message : Message} (other : message.have = none) (held : IndexMap String Unit) :
    heard held message = held := by
  unfold heard
  rw [other]
  rfl

section
variable {held next : IndexMap String Nat} {c : Connection}

theorem Tracks.mono (tracks : Tracks held c) (kept : ∀ key, held.contains key = true → next.contains key = true) :
    Tracks next c :=
  { tracks with known := fun running key known => kept key (tracks.known running key known) }
theorem say_nothing {send : Link → Link} (drained : c.near.events = []) (same : send c.near = c.near) :
    c.say send = c := by
  obtain ⟨near,channel,far⟩ := c
  unfold Connection.say
  dsimp only at same drained ⊢
  rw [same]
  obtain ⟨⟩ := near
  cases drained
  simp [Link.drainEvents,texts]
theorem say_sendText (sends : c.near.silent = false) (drained : c.near.events = []) (message : Message) :
    c.say (·.sendText message) = { c with channel := c.channel ++ [message] } := by
  obtain ⟨near,channel,far⟩ := c
  have sent : near.sendText message = near.emit (.sendText message) := by
    unfold Link.sendText
    rw [if_neg (by rw [sends]; exact Bool.false_ne_true)]
  unfold Connection.say
  dsimp only
  rw [sent]
  obtain ⟨⟩ := near
  cases drained
  rfl
theorem say_twice (sends : c.near.silent = false) (drained : c.near.events = []) (first second : Message) :
    c.say (fun link => (link.sendText first).sendText second) = (c.say (·.sendText first)).say (·.sendText second) := by
  rw [say_sendText sends drained first,
    say_sendText (c := { c with channel := c.channel ++ [first] }) sends drained second]
  obtain ⟨near,channel,far⟩ := c
  have sent : (near.sendText first).sendText second = (near.emit (.sendText first)).emit (.sendText second) := by
    have once : near.sendText first = near.emit (.sendText first) := by
      unfold Link.sendText
      rw [if_neg (by rw [sends]; exact Bool.false_ne_true)]
    have isOpen : (near.emit (.sendText first)).silent = false := sends
    rw [once]
    unfold Link.sendText
    rw [if_neg (by rw [isOpen]; exact Bool.false_ne_true)]
  unfold Connection.say
  dsimp only
  rw [sent]
  obtain ⟨⟩ := near
  cases drained
  simp [Link.drainEvents,Link.emit,texts]
theorem Tracks.sendText (tracks : Tracks held c) {message : Message} (brief : message.Brief)
    (told : c.far.closed = false → ∀ key, (heard c.known message).contains key = true → next.contains key = true) :
    Tracks next (c.say (·.sendText message)) := by
  rw [say_sendText tracks.sends tracks.drained]
  refine ⟨tracks.sends,tracks.drained,?_,?_⟩
  · intro other member
    rcases List.mem_append.mp member with before | last
    · exact tracks.brief other before
    · rw [List.mem_singleton.mp last]
      exact brief
  · intro running key known
    refine told running key ?_
    rwa [Connection.known,List.foldl_append] at known
theorem Tracks.sendOther (tracks : Tracks held c) {message : Message} (other : message.have = none) :
    Tracks held (c.say (·.sendText message)) :=
  tracks.sendText (other_brief other) (fun running key known =>
    tracks.known running key (by rwa [heard_other other] at known))
theorem sendHave_brief {keys : List String} (hashed : ∀ key ∈ keys, Hashed key) :
    (Message.keys (keys.drop (keys.length - maxHaveKeys))).Brief := by
  constructor
  · intro listed same key member
    rw [← Option.some.inj same] at member
    exact hashed key (List.mem_of_mem_drop member)
  · intro listed same
    rw [← Message.keys.inj same,List.length_drop]
    omega
  · intro add del same
    cases same
theorem Tracks.sendHave (tracks : Tracks held c) {keys : List String} (hashed : ∀ key ∈ keys, Hashed key)
    (listed : ∀ key ∈ keys, next.contains key = true) : Tracks next (c.say (·.sendHave keys)) := by
  refine tracks.sendText (sendHave_brief hashed) (fun _ key known => ?_)
  exact listed key (List.mem_of_mem_drop (heard_keys c.known (sendHave_brief hashed) known))
theorem Tracks.sendHaveChange (tracks : Tracks held c) {add del : List String} (brief : (Message.change add del).Brief)
    (added : ∀ key ∈ add, next.contains key = true)
    (left : ∀ key, held.contains key = true → key ∉ del → next.contains key = true) :
    Tracks next (c.say (·.sendHaveChange add del)) := by
  by_cases empty : (add.isEmpty && del.isEmpty) = true
  · have nothing : c.say (·.sendHaveChange add del) = c := by
      refine say_nothing tracks.drained ?_
      unfold Link.sendHaveChange
      rw [if_pos empty]
    rw [nothing]
    obtain ⟨_,dropped⟩ := Bool.and_eq_true_iff.mp empty
    refine tracks.mono (fun key present => left key present ?_)
    rw [List.isEmpty_iff.mp dropped]
    exact List.not_mem_nil
  · have said : (fun link : Link => link.sendHaveChange add del) = (·.sendText (.change add del)) := by
      funext link
      unfold Link.sendHaveChange
      rw [if_neg empty]
    rw [said]
    refine tracks.sendText brief (fun running key known => ?_)
    obtain ⟨before | new,survives⟩ := heard_change c.known brief known
    · exact left key (tracks.known running key before) survives
    · exact added key new
end

/-! ### A step -/

theorem tell_advertised (before : Swarm) {after : Swarm} {add del : List String} (links : after.links = before.links)
    (tracks : ∀ c ∈ before.links, Tracks before.held c) (hashed : ∀ key, after.held.contains key = true → Hashed key)
    (brief : (Message.change add del).Brief) (added : ∀ key ∈ add, after.held.contains key = true)
    (left : ∀ key, before.held.contains key = true → key ∉ del → after.held.contains key = true) :
    Advertised (after.tell (·.sendHaveChange add del)) := by
  refine ⟨hashed,fun c member => ?_⟩
  obtain ⟨old,inside,rfl⟩ := List.mem_map.mp member
  rw [links] at inside
  exact (tracks old inside).sendHaveChange brief added left
theorem change_brief {add del : List String} (one : add.length ≤ 1) (few : del.length ≤ maxHaveKeys)
    (hashed : ∀ key ∈ add ++ del, Hashed key) : (Message.change add del).Brief := by
  constructor
  · intro keys same key member
    exact hashed key (by rwa [← Option.some.inj same] at member)
  · intro keys same
    cases same
  · intro add del same
    cases same
    exact ⟨one.trans (by unfold maxHaveKeys; omega),few⟩

variable {s : Swarm}

theorem hold_advertised (advertised : Advertised s) {key : String} {size reservation : Nat} {pinned : String → Bool}
    {allowed still : Bool}
    (hashed : Hashed key) (told : announced s (.hold key size reservation pinned allowed still) = true) :
    Advertised (s.hold key size reservation pinned allowed still) := by
  unfold Swarm.hold
  split
  · exact advertised
  · rename_i takes
    have evicts : s.evicts (.hold key size reservation pinned allowed still) =
        ((s.taken key size).trimmed (s.options.maxHeldBytes - reservation) pinned).evicted := if_neg takes
    unfold announced at told
    dsimp only at told
    simp only [evicts,Bool.and_eq_true,decide_eq_true_eq,Bool.or_eq_true] at told
    obtain ⟨few,serves⟩ := told
    obtain ⟨_,left,evicted⟩ := trimmed_trims (s.taken key size) (s.options.maxHeldBytes - reservation) pinned
    generalize (s.taken key size).trimmed (s.options.maxHeldBytes - reservation) pinned = t at *
    have taken : ∀ other, (s.taken key size).held.contains other = true ↔ other = key ∨ s.held.contains other = true :=
      fun other => contains_taken s.held key other size
    have every : ∀ other, (s.taken key size).held.contains other = true → Hashed other := by
      intro other present
      rcases (taken other).mp present with rfl | before
      · exact hashed
      · exact advertised.hashed other before
    have rest : ∀ other, t.held.contains other = true → Hashed other :=
      fun other present => every other ((left other).mp present).1
    have survives : ∀ other, s.held.contains other = true → other ∉ t.evicted → t.held.contains other = true :=
      fun other present stays => (left other).mpr ⟨(taken other).mpr (.inr present),stays⟩
    dsimp only
    split
    · rename_i stops
      have none : t.evicted = [] := by
        rcases serves with serving | empty
        · rw [serving] at stops
          cases stops
        · exact List.isEmpty_iff.mp empty
      refine ⟨rest,fun c member => (advertised.tracks c member).mono (fun other present => ?_)⟩
      exact survives other present (by rw [none]; exact List.not_mem_nil)
    · refine tell_advertised s rfl advertised.tracks rest (change_brief ?_ few ?_) ?_ survives
      · split
        · exact le_rfl
        · exact Nat.zero_le 1
      · intro other member
        rcases List.mem_append.mp member with new | gone
        · split at new
          · rw [List.mem_singleton.mp new]
            exact hashed
          · cases new
        · exact every other (evicted other gone)
      · intro other member
        split at member
        · rename_i present
          rw [List.mem_singleton.mp member]
          exact present
        · cases member
theorem dropHeld_advertised (advertised : Advertised s) (key : String) : Advertised (s.dropHeld key) := by
  unfold Swarm.dropHeld
  split
  · exact advertised
  · rename_i size found
    have present : s.held.contains key = true := by rw [IndexMap.contains,found]; rfl
    refine tell_advertised s rfl advertised.tracks ?_ (change_brief (Nat.zero_le 1) ?_ ?_) ?_ ?_
    · exact fun other left => advertised.hashed other ((contains_erase s.held key other).mp left).2
    · exact Nat.le_of_ble_eq_true rfl
    · intro other member
      rw [List.mem_singleton.mp member]
      exact advertised.hashed key present
    · exact fun other member => absurd member List.not_mem_nil
    · intro other before stays
      exact (contains_erase s.held key other).mpr ⟨fun same => stays (List.mem_singleton.mpr same),before⟩
theorem trimHeld_advertised (advertised : Advertised s) {limit : Int} {pinned : String → Bool}
    (few : (s.trimmed limit pinned).evicted.length ≤ maxHaveKeys) : Advertised (s.trimHeld limit pinned) := by
  obtain ⟨_,left,evicted⟩ := trimmed_trims s limit pinned
  unfold Swarm.trimHeld
  dsimp only
  generalize s.trimmed limit pinned = t at *
  have rest : ∀ other, t.held.contains other = true → Hashed other :=
    fun other present => advertised.hashed other ((left other).mp present).1
  have survives : ∀ other, s.held.contains other = true → other ∉ t.evicted → t.held.contains other = true :=
    fun other present stays => (left other).mpr ⟨present,stays⟩
  split
  · rename_i empty
    refine ⟨rest,fun c member => (advertised.tracks c member).mono (fun other present => survives other present ?_)⟩
    rw [List.isEmpty_iff.mp empty]
    exact List.not_mem_nil
  · refine tell_advertised s rfl advertised.tracks rest (change_brief (Nat.zero_le 1) few ?_)
      (fun other member => nomatch member) survives
    exact fun other member => advertised.hashed other (evicted other member)
theorem withdraw_advertised (advertised : Advertised s) (rendition : Option String) :
    Advertised (s.withdrawContribution rendition) := by
  unfold Swarm.withdrawContribution
  refine ⟨fun other present => (nomatch present),fun c member => ?_⟩
  obtain ⟨old,inside,rfl⟩ := List.mem_map.mp member
  have tracks := advertised.tracks old inside
  have emptied : Tracks .empty (old.say (·.sendHave [])) :=
    tracks.sendHave (fun key member => nomatch member) (fun key member => nomatch member)
  have twice := say_twice tracks.sends tracks.drained (.keys []) (.contribution false rendition)
  change Tracks .empty (old.say (fun link => (link.sendText (.keys [])).sendText (.contribution false rendition)))
  rw [twice]
  exact emptied.sendOther rfl
theorem linkOpened_advertised (advertised : Advertised s) (near far : LinkConfig) (now : Nat) (allowed : Bool)
    (renditions : List (Option String)) : Advertised (s.linkOpened near far now allowed renditions) := by
  have fresh : Tracks s.held ⟨Link.new near now,[],Link.new far now⟩ :=
    ⟨rfl,rfl,fun message member => (nomatch member),fun _ key known => (nomatch known)⟩
  have said : ∀ (renditions : List (Option String)) (c : Connection), Tracks s.held c →
      Tracks s.held (renditions.foldl (fun c rendition => c.say (·.sendContribution allowed rendition)) c) := by
    intro renditions
    induction renditions with
    | nil => exact fun c tracks => tracks
    | cons rendition rest ih => exact fun c tracks => ih _ (tracks.sendOther rfl)
  unfold Swarm.linkOpened
  refine ⟨advertised.hashed,fun c member => ?_⟩
  rcases List.mem_append.mp member with before | opened
  · exact advertised.tracks c before
  · rw [List.mem_singleton.mp opened]
    split
    · have keys : ∀ key ∈ s.held.keys, s.held.contains key = true := fun key inside => IndexMap.contains_iff.mpr inside
      exact (said renditions _ fresh).sendHave (fun key inside => advertised.hashed key (keys key inside)) keys
    · exact said renditions _ fresh
theorem modify_advertised (advertised : Advertised s) (index : Nat) {change : Connection → Connection}
    (kept : ∀ c, Tracks s.held c → Tracks s.held (change c)) : Advertised
      { s with links := s.links.modify index change } := by
  refine ⟨advertised.hashed,fun c member => ?_⟩
  obtain ⟨here,found⟩ := List.mem_iff_getElem?.mp member
  rw [List.getElem?_modify] at found
  obtain ⟨old,inside,rfl⟩ := Option.map_eq_some_iff.mp found
  have tracks := advertised.tracks old (List.mem_iff_getElem?.mpr ⟨here,inside⟩)
  split
  · exact kept old tracks
  · exact tracks

section
variable {parse : String → Option Json}

theorem step_closed {link : Link} (closed : link.closed = true) (input : Input) :
    (link.step parse input).closed = true := by
  by_cases opens : ∃ isOpen, input = .setChannelOpen isOpen
  · obtain ⟨isOpen,rfl⟩ := opens
    exact closed
  · refine (step_still parse (fun isOpen same => opens ⟨isOpen,same⟩) (fun resumes => ?_)).closed closed
    have running := resumes.1
    rw [closed] at running
    cases running
theorem Tracks.deliver (reads : Reads parse) {held : IndexMap String Nat} {c : Connection} (tracks : Tracks held c)
    (now : Nat) :
    Tracks held (c.deliver parse now) := by
  unfold Connection.deliver
  split
  · exact tracks
  · rename_i message rest channel
    have brief := tracks.brief
    rw [channel] at brief
    refine ⟨tracks.sends,tracks.drained,fun other member => brief other (List.mem_cons_of_mem _ member),?_⟩
    intro running key known
    have isOpen : c.far.closed = false := by
      by_contra shut
      have closed : c.far.closed = true := by simpa using shut
      have still := (handleText_still c.far parse now message.text).closed closed
      dsimp only at running
      rw [running] at still
      cases still
    refine tracks.known isOpen key ?_
    have after : (c.far.handleText parse now message.text).haves = heard c.far.haves message := by
      cases haves : message.have with
      | none => rw [heard_other haves]; exact handleText_other reads now haves
      | some keys =>
        have first := brief message List.mem_cons_self
        exact (handleText_have reads now haves (first.hashed keys haves) (first.length haves) isOpen).1
    unfold Connection.known at known ⊢
    rw [channel,List.foldl_cons,← after]
    exact known
theorem Tracks.remote {held : IndexMap String Nat} {c : Connection} (tracks : Tracks held c) (input : Input) :
    Tracks held (c.remote parse input) := by
  unfold Connection.remote
  split
  · exact tracks
  · rename_i other
    refine ⟨tracks.sends,tracks.drained,tracks.brief,?_⟩
    intro running key known
    have isOpen : c.far.closed = false := by
      by_contra shut
      have closed : c.far.closed = true := by simpa using shut
      have still : (c.far.step parse input).closed = true := step_closed closed input
      dsimp only at running
      rw [running] at still
      cases still
    refine tracks.known isOpen key ?_
    have same : (c.far.step parse input).haves = c.far.haves := by
      refine step_have c.far parse input (fun now text is => ?_)
      rw [is] at other
      exact other rfl
    unfold Connection.known at known ⊢
    rw [← same]
    exact known
theorem step_advertised (reads : Reads parse) (advertised : Advertised s) {step : Step} (hashes : hashed step = true)
    (told : announced s step = true) : Advertised (s.step parse step) := by
  cases step with
  | hold key size reservation pinned allowed still => exact hold_advertised advertised hashes told
  | dropHeld key => exact dropHeld_advertised advertised key
  | reserve size pinned =>
    unfold announced at told
    exact trimHeld_advertised advertised (of_decide_eq_true (Bool.and_eq_true_iff.mp told).1)
  | withdraw rendition => exact withdraw_advertised advertised rendition
  | linkOpened near far now allowed renditions => exact linkOpened_advertised advertised near far now allowed renditions
  | linkClosed index => exact ⟨advertised.hashed,fun c member => advertised.tracks c (List.mem_of_mem_eraseIdx member)⟩
  | say index message =>
    unfold Swarm.step
    dsimp only
    split
    · exact advertised
    · rename_i other
      exact modify_advertised advertised index (fun c tracks => tracks.sendOther (by simpa using other))
  | deliver index now => exact modify_advertised advertised index (fun c tracks => tracks.deliver reads now)
  | remote index input => exact modify_advertised advertised index (fun c tracks => tracks.remote input)
  | stop => exact ⟨fun other present => (nomatch present),fun c member => (nomatch member)⟩
theorem run_advertised (reads : Reads parse) (advertised : Advertised s) {steps : List Step}
    (hashes : ∀ step ∈ steps, hashed step = true)
    (told : s.passes parse announced steps = true) : Advertised (s.run parse steps) := by
  induction steps generalizing s with
  | nil => exact advertised
  | cons step rest ih =>
    unfold Swarm.passes at told
    obtain ⟨first,later⟩ := Bool.and_eq_true_iff.mp told
    refine ih (step_advertised reads advertised (hashes step List.mem_cons_self) first) ?_ later
    exact fun other member => hashes other (List.mem_cons_of_mem _ member)
end

/-- A remote whose link is open knows of no object that is not held, once it read every HAVE
    message; and none of them closes its link. -/
def Connection.Agrees (parse : String → Option Json) (held : IndexMap String Nat) (c : Connection) : Prop :=
  c.far.closed = false →
    ((∀ message ∈ c.channel, message.have = none) → ∀ key, c.far.haves.contains key = true → held.contains key = true) ∧
    ∀ message rest, c.channel = message :: rest → message.have ≠ none →
      ∀ now, (c.far.handleText parse now message.text).closed = false
theorem heard_others (messages : List Message) (none : ∀ message ∈ messages, message.have = none)
    (held : IndexMap String Unit) :
    messages.foldl heard held = held := by
  induction messages with
  | nil => rfl
  | cons message rest ih =>
    rw [List.foldl_cons,heard_other (none message List.mem_cons_self)]
    exact ih (fun other member => none other (List.mem_cons_of_mem _ member))
theorem Tracks.agrees {parse : String → Option Json} (reads : Reads parse) {held : IndexMap String Nat} {c : Connection}
    (tracks : Tracks held c) : c.Agrees parse held := by
  intro running
  refine ⟨fun quiet key known => tracks.known running key ?_,fun message rest channel some now => ?_⟩
  · rw [Connection.known,heard_others c.channel quiet]
    exact known
  · obtain ⟨keys,haves⟩ := Option.ne_none_iff_exists'.mp some
    have brief := tracks.brief message (by rw [channel]; exact List.mem_cons_self)
    exact (handleText_have reads now haves (brief.hashed keys haves) (brief.length haves) running).2
/-- The bytes counted are always those of the objects held. Where no step drops more
    objects than a receiver reads keys, and none drops some without a message, every remote
    agrees with what is held. -/
theorem have_agrees {parse : String → Option Json} (reads : Reads parse) (options : Options) (steps : List Step)
    (hashes : ∀ step ∈ steps, hashed step = true) :
    ((Swarm.start options).run parse steps).Counted ∧
    ((Swarm.start options).passes parse announced steps = true → ∀ c ∈ ((Swarm.start options).run parse steps).links,
      c.Agrees parse ((Swarm.start options).run parse steps).held) := by
  have nothing : (Swarm.start options).Counted := rfl
  have start : Advertised (Swarm.start options) :=
    ⟨fun other present => (nomatch present),fun c member => (nomatch member)⟩
  refine ⟨run_counted parse nothing steps,fun told c member => ?_⟩
  exact ((run_advertised reads start hashes told).tracks c member).agrees reads
def holding (size : Nat) (key : String) : Step := .hold key size 0 (fun _ => false) true true
/-- An object is taken in, a link opens, and two more objects drop the first. -/
def rotating : List Step :=
  [holding 1 (numbered 64 0),.linkOpened ⟨3,4,1000,true⟩ ⟨3,4,1000,true⟩ 0 true [none],.deliver 0 0,
  holding 1 (numbered 64 1),holding 1 (numbered 64 2),.deliver 0 0,.deliver 0 0,.deliver 0 0]
theorem have_agrees_rotating : ((Swarm.start ⟨2,3,3⟩).run reader rotating).Counted ∧
    ∀ c ∈ ((Swarm.start ⟨2,3,3⟩).run reader rotating).links,
      c.Agrees reader ((Swarm.start ⟨2,3,3⟩).run reader rotating).held := by
  have agrees := have_agrees reader_reads ⟨2,3,3⟩ rotating (by decide +kernel)
  exact ⟨agrees.1,agrees.2 (by decide +kernel)⟩

/-! ### One large object drops many small ones -/

theorem trim_idle {maxHeldSegments left : Nat} {limit bytes : Int} {held : IndexMap String Nat} (pinned : String → Bool)
    (few : held.length ≤ maxHeldSegments) (small : bytes ≤ limit) : trim maxHeldSegments limit pinned left held bytes =
      ⟨held,bytes,[]⟩ := by
  cases left with
  | zero => rfl
  | succ left =>
    unfold trim
    rw [if_neg]
    omega
theorem insert_absent {held : IndexMap String Nat} {key : String} (absent : key ∉ held.keys) (size : Nat) :
    (held.insert key size).entries = held.entries ++ [(key,size)] := by
  unfold IndexMap.insert
  rw [dif_neg (fun present => absent (IndexMap.contains_iff.mp present))]
theorem declines_fresh {s : Swarm} {key : String} {size : Nat} (absent : key ∉ s.held.keys)
    (small : size ≤ s.options.maxSegmentBytes) :
    ¬ s.declines key size true = true := by
  have other : s.held.contains key = false :=
    Bool.eq_false_iff.mpr (fun present => absent (IndexMap.contains_iff.mp present))
  unfold Swarm.declines
  simp [other,small]
theorem fill_run (parse : String → Option Json) (keys : List String) : ∀ s :
    Swarm, s.links = [] → (s.held.keys ++ keys).Nodup →
    s.held.length + keys.length ≤ s.options.maxHeldSegments → s.heldBytes + keys.length ≤ s.options.maxHeldBytes →
    1 ≤ s.options.maxSegmentBytes → ∃ held : IndexMap String Nat, held.entries =
      s.held.entries ++ keys.map (fun key => (key,1)) ∧
      s.run parse (keys.map (holding 1)) = ⟨s.options,held,s.heldBytes + keys.length,[]⟩ := by
  induction keys with
  | nil =>
    intro s links _ _ _ _
    refine ⟨s.held,(List.append_nil _).symm,?_⟩
    obtain ⟨options,held,heldBytes,_⟩ := s
    cases links
    simp [Swarm.run]
  | cons key rest ih =>
    intro s links distinct few small one
    rw [List.length_cons] at few small
    have absent : key ∉ s.held.keys := by
      intro present
      exact (List.nodup_append.mp distinct).2.2 key present key List.mem_cons_self rfl
    have entries : (s.taken key 1).held.entries = s.held.entries ++ [(key,1)] := insert_absent absent 1
    have kept : s.step parse (holding 1 key) = s.taken key 1 := by
      have room : (s.taken key 1).trimmed (s.options.maxHeldBytes - (0 : Nat)) (fun _ => false) =
          ⟨(s.taken key 1).held,(s.taken key 1).heldBytes,[]⟩ := by
        refine trim_idle _ ?_ ?_
        · rw [IndexMap.length,entries,List.length_append]
          change s.held.length + 1 ≤ s.options.maxHeldSegments
          omega
        · change s.heldBytes + (1 : Nat) ≤ _
          omega
      change s.hold key 1 0 (fun _ => false) true true = _
      unfold Swarm.hold
      rw [if_neg (declines_fresh absent one)]
      dsimp only
      rw [room]
      unfold Swarm.tell Swarm.keep Swarm.taken
      simp [links]
    have keys : (s.taken key 1).held.keys = s.held.keys ++ [key] := by
      unfold IndexMap.keys
      rw [entries]
      simp
    obtain ⟨held,all,after⟩ := ih (s.taken key 1) links (by rw [keys,List.append_assoc]; exact distinct)
      (by
        rw [IndexMap.length,entries,List.length_append]
        change s.held.length + 1 + rest.length ≤ s.options.maxHeldSegments
        omega)
      (by
        change s.heldBytes + (1 : Nat) + rest.length ≤ s.options.maxHeldBytes
        omega) one
    refine ⟨held,by rw [all,entries]; simp,?_⟩
    change (s.step parse (holding 1 key)).run parse (rest.map (holding 1)) = _
    rw [kept,after]
    change (⟨s.options,held,s.heldBytes + (1 : Nat) + rest.length,[]⟩ : Swarm) = _
    congr 1
    rw [List.length_cons]
    push_cast
    omega
theorem trim_all {maxHeldSegments : Nat} (one : 1 ≤ maxHeldSegments) (large : String) (size : Nat)
    (keys : List String) :
    ∀ (left : Nat) (held : IndexMap String Nat), held.entries = keys.map (fun key => (key,1)) ++ [(large,size)] →
      keys.length ≤ left →
      (trim maxHeldSegments size (fun _ => false) left held (keys.length + size)).evicted = keys ∧
      (trim maxHeldSegments size (fun _ => false) left held (keys.length + size)).held.keys = [large] := by
  induction keys with
  | nil =>
    intro left held entries _
    rw [trim_idle]
    · exact ⟨rfl,by rw [IndexMap.keys,entries]; rfl⟩
    · rw [IndexMap.length,entries]
      exact one
    · simp
  | cons key rest ih =>
    intro left held entries enough
    obtain ⟨left,rfl⟩ : ∃ more, left = more + 1 := ⟨left - 1,by rw [List.length_cons] at enough; omega⟩
    have found : held.entries.find? (fun entry => !(fun _ : String => false) entry.1) = some (key,1) := by
      rw [entries]; rfl
    have exceeds : maxHeldSegments < held.length ∨ max 0 (size : Int) < ((key :: rest).length : Int) + size := by
      right
      rw [List.length_cons]
      omega
    have distinct := held.distinct
    rw [entries,List.map_cons,List.cons_append,List.map_cons,List.nodup_cons] at distinct
    have remain : (held.erase key).entries = rest.map (fun key => (key,1)) ++ [(large,size)] := by
      have others : ∀ entry ∈ rest.map (fun key => (key,1)) ++ [(large,size)], decide (entry.1 ≠ key) = true := by
        intro entry member
        exact decide_eq_true (fun same => distinct.1 (List.mem_map.mpr ⟨entry,member,same⟩))
      unfold IndexMap.erase IndexMap.retain
      dsimp only
      rw [entries,List.map_cons,List.cons_append,List.filter_cons_of_neg (by simp)]
      exact List.filter_eq_self.mpr others
    have fewer : ((key :: rest).length : Int) + size - (1 : Nat) = rest.length + size := by
      rw [List.length_cons]
      push_cast
      omega
    obtain ⟨evicted,kept⟩ := ih left (held.erase key) remain (by rw [List.length_cons] at enough; omega)
    unfold trim
    rw [if_pos exceeds,found]
    dsimp only
    rw [fewer,evicted]
    exact ⟨rfl,kept⟩

def smallOptions : Options := ⟨1000,300,300⟩
def smallConfig : LinkConfig := ⟨300,4,1000,true⟩
/-- Small objects are taken in, and a link opens and is told of them. -/
def telling (small : List String) : List Step := small.map (holding 1) ++
  [.linkOpened smallConfig smallConfig 0 true [none],.deliver 0 0,.deliver 0 0]
def evicting (small : List String) (large : String) : List Step := telling small ++ [holding 300 large,.deliver 0 0]

theorem contribution_heard (link : Link) (running : link.closed = false) :
    (link.handleText reader 0 (Message.contribution true none).text).haves = link.haves ∧
      (link.handleText reader 0 (Message.contribution true none).text).closed = false := by
  have read := reader_contribution true (contribution_text true)
  have short : units (Message.contribution true none).text ≤ maxControlUnits := by decide +kernel
  refine ⟨handleText_other reader_reads 0 rfl,?_⟩
  unfold Link.handleText
  rw [if_neg (by rw [running]; exact Bool.false_ne_true),if_neg (not_lt.mpr short),read]
  exact running
theorem deliver_only (parse : String → Option Json) (options : Options) (held : IndexMap String Nat) (bytes : Int)
    (c : Connection) :
    (⟨options,held,bytes,[c]⟩ : Swarm).step parse (.deliver 0 0) = ⟨options,held,bytes,[c.deliver parse 0]⟩ := rfl
theorem deliver_first (parse : String → Option Json) (near far : Link) (message : Message) (rest : List Message) :
    (⟨near,message :: rest,far⟩ : Connection).deliver parse 0 = ⟨near,rest,far.handleText parse 0 message.text⟩ := rfl

section
variable {small : List String} (count : small.length = 257)
include count

theorem small_opened {held : IndexMap String Nat} (keys : held.keys = small) :
    (⟨smallOptions,held,257,[]⟩ : Swarm).linkOpened smallConfig smallConfig 0 true [none] = ⟨smallOptions,held,257,
      [⟨Link.new smallConfig 0,[.contribution true none,.keys (small.drop 1)],Link.new smallConfig 0⟩]⟩ := by
  have first := say_sendText (c := ⟨Link.new smallConfig 0,[],Link.new smallConfig 0⟩) rfl rfl (.contribution true none)
  have second := say_sendText (c := ⟨Link.new smallConfig 0,[.contribution true none],Link.new smallConfig 0⟩) rfl rfl
    (.keys (small.drop 1))
  have listed : held.keys.drop (held.keys.length - maxHaveKeys) = small.drop 1 := by rw [keys,count]; rfl
  unfold Swarm.linkOpened Link.sendHave
  rw [listed]
  change (⟨smallOptions,held,257,[((⟨Link.new smallConfig 0,[],Link.new smallConfig 0⟩ : Connection).say
    (·.sendText (.contribution true none))).say (·.sendText (.keys (small.drop 1)))]⟩ : Swarm) = _
  rw [first]
  exact congrArg (fun c => (⟨smallOptions,held,257,[c]⟩ : Swarm)) second
theorem telling_run (distinct : small.Nodup) (hashes : ∀ key ∈ small, Hashed key) :
    ∃ (held : IndexMap String Nat) (c : Connection),
    (Swarm.start smallOptions).run reader (telling small) = ⟨smallOptions,held,257,[c]⟩ ∧
    held.entries = small.map (fun key => (key,1)) ∧ c.near.silent = false ∧ c.near.events = [] ∧ c.channel = [] ∧
    c.far.closed = false ∧ c.far.haves = heard .empty (.keys (small.drop 1)) := by
  obtain ⟨held,entries,filled⟩ := fill_run reader small (Swarm.start smallOptions) rfl distinct
    (by rw [count]; decide) (by rw [count]; decide) (by decide)
  have start : (Swarm.start smallOptions).heldBytes + (small.length : Int) = 257 := by
    rw [count]
    decide
  rw [start] at filled
  have keys : held.keys = small := by
    unfold IndexMap.keys
    rw [entries]
    change (small.map (fun key => (key,1))).map (·.1) = small
    rw [List.map_map]
    exact List.map_id _
  obtain ⟨spoken,isOpen⟩ := contribution_heard (Link.new smallConfig 0) rfl
  have later : ∀ key ∈ small.drop 1, Hashed key := fun key inside => hashes key (List.mem_of_mem_drop inside)
  have few : (small.drop 1).length ≤ 900 := by rw [List.length_drop,count]; decide
  generalize first : (Link.new smallConfig 0).handleText reader 0 (Message.contribution true none).text = far
    at spoken isOpen
  obtain ⟨listed,still⟩ := @handleText_have reader _ (.keys (small.drop 1)) reader_reads 0 _ rfl later few isOpen
  generalize second : far.handleText reader 0 (Message.keys (small.drop 1)).text = far' at listed still
  rw [spoken] at listed
  refine ⟨held,⟨Link.new smallConfig 0,[],far'⟩,?_,entries,rfl,rfl,rfl,still,listed⟩
  have opened : (⟨smallOptions,held,257,[]⟩ : Swarm).step reader (.linkOpened smallConfig smallConfig 0 true [none]) =
      _ :=
    small_opened count keys
  unfold telling
  rw [run_append,filled]
  change (((⟨smallOptions,held,257,[]⟩ : Swarm).step reader (.linkOpened smallConfig smallConfig 0 true [none])).step
    reader
    (.deliver 0 0)).step reader (.deliver 0 0) = _
  rw [opened,deliver_only,deliver_first,deliver_only,deliver_first,first,second]
theorem large_held {large : String} (distinct : (small ++ [large]).Nodup) {held : IndexMap String Nat} {c : Connection}
    (entries : held.entries = small.map (fun key => (key,1))) (sends : c.near.silent = false)
    (drained : c.near.events = []) :
    ∃ (left : IndexMap String Nat) (bytes : Int), left.keys = [large] ∧
      (⟨smallOptions,held,257,[c]⟩ : Swarm).step reader (holding 300 large) =
        ⟨smallOptions,left,bytes,[{ c with channel := c.channel ++ [.change [large] small] }]⟩ := by
  have keys : held.keys = small := by
    unfold IndexMap.keys
    rw [entries,List.map_map]
    exact List.map_id _
  have absent : large ∉ held.keys := by
    rw [keys]
    exact fun inside => (List.nodup_append.mp distinct).2.2 large inside large List.mem_cons_self rfl
  generalize state : (⟨smallOptions,held,257,[c]⟩ : Swarm) = s
  have options : s.options = smallOptions := by rw [← state]
  have same : s.held = held := by rw [← state]
  have links : s.links = [c] := by rw [← state]
  have bytes : (s.taken large 300).heldBytes = small.length + (300 : Nat) := by
    rw [count,← state]
    rfl
  have all : (s.taken large 300).held.entries = small.map (fun key => (key,1)) ++ [(large,300)] := by
    change (s.held.insert large 300).entries = _
    rw [same,insert_absent absent,entries]
  have length : (s.taken large 300).held.length = 258 := by
    unfold IndexMap.length
    rw [all,List.length_append,List.length_map,count]
    rfl
  obtain ⟨evicted,kept⟩ := trim_all (show 1 ≤ 1000 by omega) large 300 small 258 _ all (by omega)
  have trimmed : (s.taken large 300).trimmed (s.options.maxHeldBytes - (0 : Nat)) (fun _ => false) =
      trim 1000 (300 : Nat) (fun _ => false) 258 (s.taken large 300).held (small.length + (300 : Nat)) := by
    have limit : ((s.options.maxHeldBytes : Int) - (0 : Nat)) = (300 : Nat) := by rw [options]; rfl
    have most : (s.taken large 300).options.maxHeldSegments = 1000 := by
      change s.options.maxHeldSegments = 1000
      rw [options]
      rfl
    unfold Swarm.trimmed
    rw [most,length,bytes,limit]
  have takes : ¬ s.declines large 300 true = true :=
    declines_fresh (by rw [same]; exact absent) (by rw [options]; decide)
  generalize trim 1000 (300 : Nat) (fun _ => false) 258 (s.taken large 300).held (small.length + (300 : Nat)) = t
    at trimmed evicted kept
  have present : t.held.contains large = true := IndexMap.contains_iff.mpr (by rw [kept]; exact List.mem_cons_self)
  have said : (fun link : Link => link.sendHaveChange [large] small) = (·.sendText (.change [large] small)) := rfl
  refine ⟨t.held,t.bytes,kept,?_⟩
  change s.hold large 300 0 (fun _ => false) true true = _
  unfold Swarm.hold
  rw [if_neg takes]
  dsimp only
  rw [trimmed,present,if_pos rfl,evicted,said]
  unfold Swarm.tell Swarm.keep Swarm.taken
  dsimp only
  rw [options,links,List.map_cons,List.map_nil,say_sendText sends drained]
  rfl
theorem evicting_run {large : String} (distinct : (small ++ [large]).Nodup)
    (hashes : ∀ key ∈ small ++ [large], Hashed key)
    {last : String} (ends : small.drop 256 = [last]) : ∃ c ∈
      ((Swarm.start smallOptions).run reader (evicting small large)).links,
      c.channel = [] ∧ c.far.closed = false ∧ c.far.haves.contains last = true ∧
      ((Swarm.start smallOptions).run reader (evicting small large)).held.contains last = false := by
  obtain ⟨held,c,told,entries,sends,drained,channel,running,known⟩ :=
    telling_run count (List.nodup_append.mp distinct).1
    (fun key inside => hashes key (List.mem_append_left _ inside))
  obtain ⟨left,bytes,keys,after⟩ := large_held count distinct entries sends drained
  have few : ([large] ++ small).length ≤ 900 := by
    rw [List.length_append,count]
    exact Nat.le_of_ble_eq_true rfl
  have named : ∀ key ∈ [large] ++ small, Hashed key := by
    intro key inside
    refine hashes key ?_
    rcases List.mem_append.mp inside with new | old
    · exact List.mem_append_right _ new
    · exact List.mem_append_left _ old
  obtain ⟨heard',still⟩ := @handleText_have reader _ (.change [large] small) reader_reads 0 _ rfl named few running
  have split : small.take 256 ++ [last] = small := by rw [← ends]; exact List.take_append_drop 256 small
  have first : last ∉ small.take 256 := by
    intro inside
    have nodup := (List.nodup_append.mp distinct).1
    rw [← split] at nodup
    exact (List.nodup_append.mp nodup).2.2 last inside last List.mem_cons_self rfl
  have listed : last ∈ (small.drop 1).take maxHaveKeys := by
    have whole : (small.drop 1).length ≤ maxHaveKeys := by
      rw [List.length_drop,count]
      decide
    rw [List.take_of_length_le whole]
    have behind : (small.drop 1).drop 255 = [last] := by rw [List.drop_drop]; exact ends
    exact List.mem_of_mem_drop (by rw [behind]; exact List.mem_cons_self)
  have other : last ≠ large := by
    rintro rfl
    have inside : last ∈ small := by rw [← split]; exact List.mem_append_right _ List.mem_cons_self
    exact (List.nodup_append.mp distinct).2.2 last inside last List.mem_cons_self rfl
  have before : c.far.haves.contains last = true := by
    rw [known]
    exact (heard_listed .empty (fun key inside => hashes key (List.mem_append_left _ (List.mem_of_mem_drop inside)))
      last).mpr listed
  generalize next : c.far.handleText reader 0 (Message.change [large] small).text = far at heard' still
  have ran : (Swarm.start smallOptions).run reader (evicting small large) =
      ⟨smallOptions,left,bytes,[⟨c.near,[],far⟩]⟩ := by
    unfold evicting
    rw [run_append,told]
    change ((⟨smallOptions,held,257,[c]⟩ : Swarm).step reader (holding 300 large)).step reader (.deliver 0 0) = _
    rw [after,channel,List.nil_append,deliver_only,deliver_first,next]
  rw [ran]
  refine ⟨_,List.mem_cons_self,rfl,still,?_,?_⟩
  · change far.haves.contains last = true
    rw [heard']
    exact (heard_changed c.far.haves named last).mpr ⟨addKeys_contains _ _ before,first⟩
  · refine Bool.eq_false_iff.mpr (fun present => other ?_)
    have inside := IndexMap.contains_iff.mp present
    rw [keys] at inside
    exact List.mem_singleton.mp inside
end

def smallKeys : List String := (List.range 257).map (numbered 64)
def largeKey : String := numbered 64 257
theorem smallKeys_split : smallKeys = (List.range 256).map (numbered 64) ++ [numbered 64 256] := by
  unfold smallKeys
  rw [List.range_succ,List.map_append]
  rfl
theorem allKeys_eq : smallKeys ++ [largeKey] = (List.range 258).map (numbered 64) := by
  rw [List.range_succ,List.map_append]
  rfl
theorem allKeys_hashed : ∀ key ∈ smallKeys ++ [largeKey], Hashed key := by
  intro key member
  rw [allKeys_eq] at member
  obtain ⟨k,_,rfl⟩ := List.mem_map.mp member
  exact numbered_hex (by omega) k
theorem evicting_hashed : ∀ step ∈ evicting smallKeys largeKey, hashed step = true := by
  intro step member
  unfold evicting telling at member
  rw [List.append_assoc] at member
  rcases List.mem_append.mp member with small | rest
  · obtain ⟨key,inside,rfl⟩ := List.mem_map.mp small
    exact allKeys_hashed key (List.mem_append_left _ inside)
  · simp only [List.cons_append,List.nil_append,List.mem_cons,List.not_mem_nil,or_false] at rest
    rcases rest with rfl | rfl | rfl | rfl | rfl
    all_goals rfl
/-- The remote read every message it was sent, and still knows of an object that was dropped. -/
theorem evicted_still_known : smallOptions.accepted = true ∧
    (∀ step ∈ evicting smallKeys largeKey, hashed step = true) ∧
    ∃ c ∈ ((Swarm.start smallOptions).run reader (evicting smallKeys largeKey)).links,
      ¬ c.Agrees reader ((Swarm.start smallOptions).run reader (evicting smallKeys largeKey)).held := by
  have distinct : (smallKeys ++ [largeKey]).Nodup := by
    have named := numbered_nodup 64 (show 258 ≤ 65536 by omega) (fun k => k) (numbered 64) (fun m n same => same)
    rw [allKeys_eq]
    simpa using named
  have last : smallKeys.drop 256 = [numbered 64 256] := by
    rw [smallKeys_split,List.drop_append_of_le_length (by simp),List.drop_of_length_le (by simp)]
    rfl
  obtain ⟨c,member,channel,running,known,dropped⟩ := evicting_run (by simp [smallKeys]) distinct allKeys_hashed last
  refine ⟨by decide,evicting_hashed,c,member,fun agrees => ?_⟩
  have held := (agrees running).1 (by rw [channel]; exact fun message inside => (nomatch inside)) _ known
  rw [dropped] at held
  cases held

end RelaySwarm.Held
