import RelaySwarm.LinkRequests

/-!
The requester against any remote. Every request is answered once, with one report
(`Books`), and bytes that a request is resolved with are those that arrived since its
`meta`, as many as that said (`Parcels`).
-/
namespace RelaySwarm.Links
open Script Pieces

variable {r r' : Requester} {link : Link} {now : Nat} {input : Input} {inputs : List Input}
/-- What a request was resolved with, each time. -/
def resolutionsOf (events : List LinkEvent) (id : Nat) : List (Option (List UInt8)) :=
  events.filterMap fun
    | .resolved (some other) bytes => if other = id then some bytes else none
    | _ => none
/-- The reports about a request. -/
def reportsOf (events : List LinkEvent) (id : Nat) : List RequestReport :=
  events.filterMap fun
    | .report told => if told.id = some id then some told else none
    | _ => none
@[simp] theorem resolutionsOf_append (a b : List LinkEvent) (id : Nat) :
    resolutionsOf (a ++ b) id = resolutionsOf a id ++ resolutionsOf b id := by simp [resolutionsOf]
@[simp] theorem reportsOf_append (a b : List LinkEvent) (id : Nat) :
    reportsOf (a ++ b) id = reportsOf a id ++ reportsOf b id := by simp [reportsOf]
theorem resolutionsOf_answers (events : List LinkEvent) (id : Nat) :
    resolutionsOf (events.filter LinkEvent.answers) id = resolutionsOf events id := by
  unfold resolutionsOf
  rw [List.filterMap_filter]
  congr 1
  funext event
  cases event with
  | resolved other bytes => cases other <;> rfl
  | _ => simp
theorem reportsOf_answers (events : List LinkEvent) (id : Nat) :
    reportsOf (events.filter LinkEvent.answers) id = reportsOf events id := by
  unfold reportsOf
  rw [List.filterMap_filter]
  congr 1
  funext event
  cases event with
  | report told =>
    by_cases mine : told.id = some id
    · simp [LinkEvent.answers,mine]
    · simp [mine]
  | _ => simp
theorem resolutionsOf_answer (other id : Nat) (bytes : Option (List UInt8)) (told : RequestReport) :
    resolutionsOf [.resolved (some other) bytes,.report told] id = if other = id then [bytes] else [] := by
  by_cases mine : other = id <;> simp [resolutionsOf,mine]
theorem reportsOf_answer {other : Nat} (id : Nat) (bytes : Option (List UInt8)) {told : RequestReport}
    (about : told.id = some other) :
    reportsOf [.resolved (some other) bytes,.report told] id = if other = id then [told] else [] := by
  by_cases mine : other = id <;> simp [reportsOf,mine,about]

/-! ### One answer for each request -/

/-- The request still has to be answered. -/
def Requester.owes (r : Requester) (id : Nat) : Prop :=
  ∃ pending, r.pending = some pending ∧ pending.id = id ∧ pending.draining = false
/-- A request was resolved once and reported once, as payload if and only if it was
    resolved with bytes. -/
def Answered (events : List LinkEvent) (id : Nat) : Prop :=
  ∃ bytes told, resolutionsOf events id = [bytes] ∧ reportsOf events id = [told] ∧
    (told.outcome = .payload ↔ bytes.isSome = true)
/-- Every request that was made is answered or owed, and no other one is answered. -/
structure Books (r : Requester) : Prop where
  sound : Sound r
  answered : ∀ id, 0 < id → id < r.nextId → ¬ r.owes id → Answered r.answers id
  silent : ∀ id, id = 0 ∨ r.nextId ≤ id ∨ r.owes id → resolutionsOf r.answers id = [] ∧ reportsOf r.answers id = []

theorem Books.answer {r r' : Requester} (books : Books r) (sound : Sound r') {pending : Pending}
    (held : r.pending = some pending) (live : pending.draining = false) (paid : ∀ id, ¬ r'.owes id)
    (next : r'.nextId = r.nextId) {bytes : Option (List UInt8)} {told : RequestReport}
    (about : told.id = some pending.id)
    (payload : told.outcome = .payload ↔ bytes.isSome = true)
    (answers : r'.answers = r.answers ++ [.resolved (some pending.id) bytes,.report told]) : Books r' := by
  have owed : r.owes pending.id := ⟨pending,held,rfl,live⟩
  obtain ⟨unresolved,unreported⟩ := books.silent pending.id (.inr (.inr owed))
  have named := books.sound.named pending held
  refine ⟨sound,fun id positive made _ => ?_,fun id free => ?_⟩
  · unfold Answered
    rw [answers,resolutionsOf_append,reportsOf_append,resolutionsOf_answer,reportsOf_answer id bytes about]
    by_cases mine : pending.id = id
    · subst mine
      exact ⟨bytes,told,by simp [unresolved],by simp [unreported],payload⟩
    · have before := books.answered id positive (next ▸ made) (by
        rintro ⟨other,same,equal,_⟩
        rw [held] at same
        cases same
        exact mine equal)
      obtain ⟨bytes',told',resolved,reported,payload'⟩ := before
      exact ⟨bytes',told',by simp [mine,resolved],by simp [mine,reported],payload'⟩
  · have apart : pending.id ≠ id := by
      rintro rfl
      rcases free with zero | late | owes
      · omega
      · omega
      · exact paid _ owes
    have before :=
      books.silent id (free.imp_right (Or.imp (fun late => next ▸ late) (fun owes => absurd owes (paid id))))
    rw [answers,resolutionsOf_append,reportsOf_append,resolutionsOf_answer,reportsOf_answer id bytes about,if_neg apart,
      if_neg apart]
    simpa using before
theorem Asks.books {pending : Pending} (asks : Asks r pending) (books : Books r) : Books (r.ask pending) := by
  have other {id : Nat} : ¬ r.owes id := by
    rintro ⟨p,held,_⟩
    rw [asks.idle] at held
    cases held
  have owes {id : Nat} : (r.ask pending).owes id ↔ r.nextId = id := by
    constructor
    · rintro ⟨_,⟨rfl⟩,named,_⟩
      exact asks.id.symm.trans named
    · rintro rfl
      exact ⟨pending,rfl,asks.id,asks.flags.1⟩
  refine ⟨asks.sound books.sound,fun id positive made paid => ?_,fun id free => books.silent id ?_⟩
  · have apart : r.nextId ≠ id := fun same => paid (owes.mpr same)
    have below : id < r.nextId + 1 := made
    exact books.answered id positive (by omega) other
  · rcases free with zero | late | owed
    · exact .inl zero
    · have above : r.nextId + 1 ≤ id := late
      exact .inr (.inl (by omega))
    · exact .inr (.inl (le_of_eq (owes.mp owed)))
theorem Move.books (move : Move r r') (books : Books r) : Books r' := by
  have sound := move.sound books.sound
  cases move with
  | @delivers pending report held live whole told =>
    exact books.answer sound held live (by rintro id ⟨_,_,_⟩; contradiction) rfl told.1 (by simp [told.2]) rfl
  | @fails pending report closed held live told kept =>
    exact books.answer sound held live (by rintro id ⟨_,_,_⟩; contradiction) rfl told.1 (by simp [told.2]) rfl
  | @drains pending drained report held live told id expected flags =>
    refine books.answer sound held live ?_ rfl told.1 (by simp [told.2]) rfl
    rintro id' ⟨_,⟨rfl⟩,_,live'⟩
    rw [flags.1] at live'
    cases live'
  | @ends pending closed held concluded kept =>
    have same {id : Nat} : ¬ r.owes id := by
      rintro ⟨p,held',_,live⟩
      rw [held] at held'
      cases held'
      rw [concluded] at live
      cases live
    refine ⟨sound,fun id positive made _ => books.answered id positive made same,fun id free => books.silent id ?_⟩
    refine free.imp_right (Or.imp_right ?_)
    rintro ⟨_,_,_⟩
    contradiction
  | shuts idle => exact ⟨sound,books.answered,books.silent⟩
theorem Moves.books (moves : Moves r r') (books : Books r) : Books r' := by
  induction moves with
  | refl => exact books
  | tail _ move ih => exact move.books ih
theorem Books.alter (books : Books r) {pending pending' : Pending} (held : r.pending = some pending)
    (id : pending'.id = pending.id) (draining : pending'.draining = pending.draining)
    (flags : pending'.resolved = pending.resolved ∧ pending'.reported = pending.reported) :
    Books { r with pending := some pending' } := by
  have owes (id' : Nat) : Requester.owes { r with pending := some pending' } id' ↔ r.owes id' := by
    constructor
    · rintro ⟨_,⟨rfl⟩,named,live⟩
      exact ⟨pending,held,id.symm.trans named,draining.symm.trans live⟩
    · rintro ⟨other,same,named,live⟩
      rw [held] at same
      cases same
      exact ⟨pending',rfl,id.trans named,draining.trans live⟩
  refine ⟨⟨?_,?_,?_,books.sound.positive⟩,fun id' positive made paid => ?_,fun id' free => ?_⟩
  · rintro _ ⟨rfl⟩
    have told := books.sound.told pending held
    exact ⟨by rw [flags.1,draining]; exact told.1,by rw [flags.2,draining]; exact told.2⟩
  · intro closed
    rw [books.sound.shut closed] at held
    cases held
  · rintro _ ⟨rfl⟩
    rw [id]
    exact books.sound.named pending held
  · exact books.answered id' positive made (fun owed => paid ((owes id').mpr owed))
  · exact books.silent id' (free.imp_right (Or.imp_right (owes id').mp))

/-! ### What each input does -/

/-- The id a request returned. -/
def Link.returned (link : Link) : Input → Option Nat
  | .request now key timeoutMs expectedSize => (link.request now key timeoutMs expectedSize).1
  | .requestRange now key timeoutMs range objectSize => (link.requestRange now key timeoutMs range objectSize).1
  | _ => none
/-- The size a request expects. -/
def Input.expects : Input → Option Nat
  | .request _ _ _ expectedSize => expectedSize
  | .requestRange _ _ _ range objectSize => (rangeBytes objectSize range).map (fun offsets => offsets.2 - offsets.1)
  | _ => none
/-- The bytes of a binary frame. -/
def Input.chunk : Input → List UInt8
  | .binary _ chunk => chunk
  | _ => []

section
variable (parse : String → Option Json)

/-- What one input does to the requester. -/
inductive Course (link : Link) (input : Input) (next : Link) : Prop
  /-- It moves; a chunk that only moves it leaves nothing pending. -/
  | moves (moves : Moves link.requester next.requester) (unasked : link.returned input = none)
      (dropped : next.pending = none ∨ input.chunk = [])
  /-- A request is made first. -/
  | asks {pending : Pending} (asks : Asks link.requester pending) (returned : link.returned input = some pending.id)
      (expects : input.expects = pending.expected) (moves : Moves (link.requester.ask pending) next.requester)
      (silent : input.chunk = [])
  /-- A `meta` gives the pending request its size. -/
  | sizes {message : Fields} {pending : Pending} {size : Nat} (header : Header parse input message)
      (held : link.pending = some pending) (announced : Announced message pending size)
      (same : next.requester = { link.requester with pending := some { pending with size := some size } })
  /-- A chunk grows it, within its size. -/
  | grows {pending : Pending} {size : Nat} (held : link.pending = some pending) (sized : pending.size = some size)
      (fits : pending.received + input.chunk.length ≤ size) (unasked : link.returned input = none)
      (same : next.requester = { link.requester with pending := some (pending.receive input.chunk) })
theorem startRequest_refused {key : String} {timeoutMs : Nat} {expectedSize : Option Nat}
    {range : Option PieceRange}
    (same : (link.startRequest now key timeoutMs expectedSize range).2.requester = link.requester) :
    (link.startRequest now key timeoutMs expectedSize range).1 = none := by
  unfold Link.startRequest at same ⊢
  split at same
  · rw [if_pos ‹_›]
  · have later := congrArg Requester.nextId same
    dsimp only at later
    split at later
    · rw [finish_requester rfl ⟨rfl,rfl⟩] at later
      exact absurd later (Nat.succ_ne_self _)
    · rw [sendText_aside] at later
      exact absurd later (Nat.succ_ne_self _)
theorem requestRange_refused {key : String} {timeoutMs : Nat} {range : PieceRange}
    {objectSize : Nat} (same : (link.requestRange now key timeoutMs range objectSize).2.requester = link.requester) :
    (link.requestRange now key timeoutMs range objectSize).1 = none := by
  unfold Link.requestRange at same ⊢
  split at same
  · rfl
  · exact startRequest_refused same
theorem step_course (sound : Sound link.requester) (input : Input) :
    Course parse link input (link.step parse input) := by
  have aside {next : Link} (same : next.requester = link.requester) (unasked : link.returned input = none)
      (silent : input.chunk = []) : Course parse link input next := .moves (.of_eq same) unasked (.inr silent)
  cases input with
  | sendHave keys => exact aside (sendText_aside link _) rfl rfl
  | sendHaveChange add del =>
    refine aside ?_ rfl rfl
    simp only [Link.step,Link.sendHaveChange]
    split
    · rfl
    · exact sendText_aside link _
  | sendContribution serving rendition => exact aside (sendText_aside link _) rfl rfl
  | sendFetching key leaseMs => exact aside (sendText_aside link _) rfl rfl
  | request now key timeoutMs expectedSize =>
    rcases startRequest_moves sound now key timeoutMs expectedSize none
      with same | ⟨pending,asks,expects,returned,moves⟩
    · exact aside same (startRequest_refused same) rfl
    · exact .asks asks returned expects.symm moves rfl
  | requestRange now key timeoutMs range objectSize =>
    rcases requestRange_moves sound now key timeoutMs range objectSize with same | ⟨pending,asks,expects,returned,moves⟩
    · exact aside same (requestRange_refused same) rfl
    · exact .asks asks returned expects.symm moves rfl
  | abort now id abandoned => exact .moves (abort_moves sound now id abandoned) rfl (.inr rfl)
  | close reason => exact .moves (close_moves sound _) rfl (.inr rfl)
  | tick now => exact .moves (tick_moves sound now) rfl (.inr rfl)
  | text now text =>
    rcases handleText_moves parse sound now text with moves | ⟨message,pending,size,header,held,announced,same⟩
    · exact .moves moves rfl (.inr rfl)
    · exact .sizes header held announced same
  | binary now chunk =>
    rcases handleBinary_moves sound now chunk with ⟨moves,dropped⟩ | ⟨pending,size,held,sized,fits,same⟩
    · exact .moves moves rfl (.inl dropped)
    · exact .grows held sized fits rfl same
  | serveResponse now bytes => exact aside (serveResponseInner_aside link now bytes _) rfl rfl
  | serveRangeResponse now objectSize bytes => exact aside (serveResponseInner_aside link now _ _) rfl rfl
  | bufferedAmountLow now buffered => exact aside (resume_aside _ now) rfl rfl
  | observeBuffered buffered => exact aside rfl rfl rfl
  | setChannelOpen isOpen => exact aside rfl rfl rfl
  | setReliable reliable => exact aside rfl rfl rfl
theorem Course.books {link next : Link} (course : Course parse link input next)
    (books : Books link.requester) : Books next.requester := by
  cases course with
  | moves moves _ _ => exact moves.books books
  | asks asks _ _ moves _ => exact moves.books (asks.books books)
  | sizes header held announced same =>
    rw [same]
    exact books.alter held rfl rfl ⟨rfl,rfl⟩
  | grows held sized fits _ same =>
    rw [same]
    exact books.alter held rfl rfl ⟨rfl,rfl⟩

/-! ### What arrived -/

variable (start : Link)

/-- The call that returned an id, and the size it expected. -/
def Asked (inputs : List Input) (id : Nat) (expected : Option Nat) : Prop :=
  ∃ before ask after, inputs = before ++ ask :: after ∧ (start.run parse before).returned ask = some id ∧
    ask.expects = expected
/-- The frames since the `meta` of a request carry these bytes. -/
def Arrived (inputs : List Input) (id size : Nat) (bytes : List UInt8) : Prop :=
  ∃ before header after message pending, inputs = before ++ header :: after ∧ Header parse header message ∧
    (start.run parse before).pending = some pending ∧ pending.id = id ∧ Announced message pending size ∧
    bytes = after.flatMap Input.chunk
/-- One input resolves a request with all the bytes that its `meta` announced. -/
def Delivered (inputs : List Input) (id : Nat) (bytes : List UInt8) : Prop :=
  ∃ before last after, inputs = before ++ last :: after ∧ Arrived parse start before id bytes.length bytes ∧
    resolutionsOf (start.run parse before).events id = [] ∧
    resolutionsOf (start.run parse (before ++ [last])).events id = [some bytes]
/-- What is pending has arrived in frames, and what was given had arrived. -/
structure Parcels (inputs : List Input) (r : Requester) : Prop where
  fresh : ∀ pending, r.pending = some pending → pending.draining = false → pending.size = none →
    pending.parts = [] ∧ pending.received = 0
  arriving : ∀ pending size, r.pending = some pending → pending.draining = false → pending.size = some size →
    Arrived parse start inputs pending.id size pending.parts ∧ pending.received = pending.parts.length ∧
      ∀ expected, pending.expected = some expected → expected = size
  asked : ∀ pending, r.pending = some pending → Asked parse start inputs pending.id pending.expected
  given : ∀ id bytes, some bytes ∈ resolutionsOf r.answers id → Delivered parse start inputs id bytes ∧
    ∃ expected, Asked parse start inputs id expected ∧ ∀ size, expected = some size → size = bytes.length

variable {parse start}

theorem Asked.later {id : Nat} {expected : Option Nat} (asked : Asked parse start inputs id expected)
    (input : Input) : Asked parse start (inputs ++ [input]) id expected := by
  obtain ⟨before,ask,after,split,rest⟩ := asked
  exact ⟨before,ask,after ++ [input],by simp [split],rest⟩
theorem Arrived.later {id size : Nat} {bytes : List UInt8}
    (arrived : Arrived parse start inputs id size bytes) (input : Input) :
    Arrived parse start (inputs ++ [input]) id size (bytes ++ input.chunk) := by
  obtain ⟨before,header,after,message,pending,split,tagged,held,named,announced,all⟩ := arrived
  exact ⟨before,header,after ++ [input],message,pending,by simp [split],tagged,held,named,announced,by simp [all]⟩
theorem Delivered.later {id : Nat} {bytes : List UInt8}
    (delivered : Delivered parse start inputs id bytes) (input : Input) :
    Delivered parse start (inputs ++ [input]) id bytes := by
  obtain ⟨before,last,after,split,rest⟩ := delivered
  exact ⟨before,last,after ++ [input],by simp [split],rest⟩

theorem Moves.pending (moves : Moves r r') : ∀ pending, r'.pending = some pending →
    r.pending = some pending ∨ pending.draining = true ∧
      ∃ before, r.pending = some before ∧ before.id = pending.id ∧ before.expected = pending.expected := by
  induction moves with
  | refl => exact fun _ held => .inl held
  | @tail b c _ move ih =>
    intro pending held
    cases move with
    | delivers | fails | ends => cases held
    | @drains earlier drained report held' live told id expected flags =>
      cases held
      refine .inr ⟨flags.1,?_⟩
      rcases ih earlier held' with same | ⟨_,before,same,named,wanted⟩
      · exact ⟨earlier,same,id.symm,expected.symm⟩
      · exact ⟨before,same,named.trans id.symm,wanted.trans expected.symm⟩
    | shuts idle => exact ih pending held
theorem Moves.given (moves : Moves r r') {id : Nat} {bytes : List UInt8} :
    some bytes ∈ resolutionsOf r'.answers id → some bytes ∈ resolutionsOf r.answers id ∨
      ∃ pending, r.pending = some pending ∧ pending.id = id ∧ pending.parts = bytes ∧ pending.draining = false ∧
        pending.size = some pending.received := by
  induction moves with
  | refl => exact .inl
  | @tail b c before move ih =>
    intro member
    cases move with
    | @delivers pending report held live whole told =>
      simp only [resolutionsOf_append,List.mem_append,resolutionsOf_answer] at member
      rcases member with old | new
      · exact ih old
      · by_cases mine : pending.id = id
        · rw [if_pos mine,List.mem_singleton] at new
          rcases Moves.pending before pending held with same | ⟨draining,_⟩
          · exact .inr ⟨pending,same,mine,(Option.some.inj new).symm,live,whole⟩
          · rw [live] at draining
            cases draining
        · rw [if_neg mine] at new
          cases new
    | @fails pending | @drains pending =>
      simp only [resolutionsOf_append,List.mem_append,resolutionsOf_answer] at member
      rcases member with old | new
      · exact ih old
      · by_cases mine : pending.id = id
        · rw [if_pos mine,List.mem_singleton] at new
          cases new
        · rw [if_neg mine] at new
          cases new
    | ends | shuts => exact ih member
theorem Books.given (books : Books r) {id : Nat} {bytes : List UInt8}
    (member : some bytes ∈ resolutionsOf r.answers id) : resolutionsOf r.answers id = [some bytes] := by
  have answered : Answered r.answers id := by
    by_contra unanswered
    have none := (books.silent id (by
      by_contra owed
      push Not at owed
      exact unanswered (books.answered id (Nat.pos_of_ne_zero owed.1) owed.2.1 owed.2.2))).1
    rw [none] at member
    cases member
  obtain ⟨only,_,resolved,_⟩ := answered
  rw [resolved] at member ⊢
  rw [List.mem_singleton.mp member]

theorem run_step (inputs : List Input) (input : Input) :
    start.run parse (inputs ++ [input]) = (start.run parse inputs).step parse input := by
  simp [Link.run]
theorem Course.parcels
    (course : Course parse (start.run parse inputs) input (start.run parse (inputs ++ [input])))
    (books : Books (start.run parse inputs).requester)
    (parcels : Parcels parse start inputs (start.run parse inputs).requester) :
    Parcels parse start (inputs ++ [input]) (start.run parse (inputs ++ [input])).requester := by
  have later := course.books parse books
  -- what was given before the input still is
  have kept (id : Nat) (bytes : List UInt8)
      (member : some bytes ∈ resolutionsOf (start.run parse inputs).requester.answers id) :
      Delivered parse start (inputs ++ [input]) id bytes ∧
        ∃ expected, Asked parse start (inputs ++ [input]) id expected ∧ ∀ size, expected = some size →
          size = bytes.length := by
    obtain ⟨delivered,expected,asked,wanted⟩ := parcels.given id bytes member
    exact ⟨delivered.later input,expected,asked.later input,wanted⟩
  cases course with
  | moves moves unasked dropped =>
    refine ⟨fun pending held live => ?_,fun pending size held live => ?_,fun pending held => ?_,
      fun id bytes member => ?_⟩
    · rcases moves.pending pending held with same | ⟨draining,_⟩
      · exact parcels.fresh pending same live
      · exact absurd (live.symm.trans draining) (by simp)
    · rcases moves.pending pending held with same | ⟨draining,_⟩
      · intro sized
        rcases dropped with gone | silent
        · rw [show (start.run parse (inputs ++ [input])).requester.pending = none from gone] at held
          cases held
        · obtain ⟨arrived,rest⟩ := parcels.arriving pending size same live sized
          have longer := arrived.later input
          rw [silent,List.append_nil] at longer
          exact ⟨longer,rest⟩
      · exact absurd (live.symm.trans draining) (by simp)
    · rcases moves.pending pending held with same | ⟨_,before,same,named,wanted⟩
      · exact (parcels.asked pending same).later input
      · have asked := (parcels.asked before same).later input
        rwa [named,wanted] at asked
    · rcases moves.given member with old | ⟨pending,held,rfl,rfl,live,whole⟩
      · exact kept id bytes old
      · obtain ⟨arrived,count,expected⟩ := parcels.arriving pending pending.received held live whole
        rw [count] at arrived expected
        refine ⟨⟨inputs,input,[],rfl,arrived,?_,?_⟩,pending.expected,(parcels.asked pending held).later input,expected⟩
        · rw [← resolutionsOf_answers]
          exact (books.silent pending.id (.inr (.inr ⟨pending,held,rfl,live⟩))).1
        · rw [← resolutionsOf_answers]
          exact later.given member
  | @asks asked asks returned expects moves silent =>
    have mine {pending : Pending} (held : ((start.run parse inputs).requester.ask asked).pending = some pending) :
        pending = asked := (Option.some.inj held).symm
    have here : Asked parse start (inputs ++ [input]) asked.id asked.expected := ⟨inputs,input,[],rfl,returned,expects⟩
    refine ⟨fun pending held live => ?_,fun pending size held live => ?_,fun pending held => ?_,
      fun id bytes member => ?_⟩
    · rcases moves.pending pending held with same | ⟨draining,_⟩
      · rw [mine same]
        exact fun _ => asks.fresh.2
      · exact absurd (live.symm.trans draining) (by simp)
    · rcases moves.pending pending held with same | ⟨draining,_⟩
      · rw [mine same,asks.fresh.1]
        exact fun sized => absurd sized (by simp)
      · exact absurd (live.symm.trans draining) (by simp)
    · rcases moves.pending pending held with same | ⟨_,before,same,named,wanted⟩
      · rw [mine same]
        exact here
      · rw [← named,← wanted,mine same]
        exact here
    · rcases moves.given member with old | ⟨pending,held,_,_,_,whole⟩
      · exact kept id bytes old
      · rw [mine held,asks.fresh.1] at whole
        cases whole
  | @sizes message pending size header held announced same =>
    rw [same]
    refine ⟨?_,?_,?_,kept⟩
    · rintro _ ⟨rfl⟩ _ unsized
      cases unsized
    · rintro _ _ ⟨rfl⟩ live ⟨rfl⟩
      obtain ⟨empty,zero⟩ := parcels.fresh pending held live announced.first
      refine ⟨⟨inputs,input,[],message,pending,rfl,header,held,rfl,announced,empty⟩,?_,announced.expected⟩
      rw [show pending.parts = [] from empty]
      exact zero
    · rintro _ ⟨rfl⟩
      exact (parcels.asked pending held).later input
  | @grows pending size held sized fits unasked same =>
    rw [same]
    refine ⟨?_,?_,?_,kept⟩
    · rintro _ ⟨rfl⟩ _ unsized
      exact absurd (sized.symm.trans unsized) (by simp)
    · rintro _ _ ⟨rfl⟩ live sized'
      obtain ⟨arrived,count,expected⟩ := parcels.arriving pending _ held live sized'
      have parts : (pending.receive input.chunk).parts = pending.parts ++ input.chunk := by
        have live' : pending.draining = false := live
        simp [Pending.receive,live']
      refine ⟨?_,?_,expected⟩
      · rw [parts]
        exact arrived.later input
      · rw [parts,List.length_append,← count]
        rfl
    · rintro _ ⟨rfl⟩
      exact (parcels.asked pending held).later input

/-! ### Ids -/

theorem Moves.nextId (moves : Moves r r') : r'.nextId = r.nextId := by
  induction moves with
  | refl => rfl
  | tail _ move ih => cases move <;> exact ih
theorem Course.ids {link next : Link} (course : Course parse link input next) :
    link.returned input = none ∧ next.nextId = link.nextId ∨
      link.returned input = some link.nextId ∧ next.nextId = link.nextId + 1 := by
  cases course with
  | moves moves unasked _ => exact .inl ⟨unasked,moves.nextId⟩
  | @asks pending asks returned _ moves _ => exact .inr ⟨by rw [returned,asks.id]; rfl,moves.nextId⟩
  | @sizes message _ _ header _ _ same =>
    obtain ⟨_,_,rfl,_⟩ := header
    exact .inl ⟨rfl,congrArg Requester.nextId same⟩
  | grows _ _ _ unasked same => exact .inl ⟨unasked,congrArg Requester.nextId same⟩
end

section
variable (parse : String → Option Json) (config : LinkConfig) (opened : Nat)

theorem new_books : Books (Link.new config opened).requester := by
  refine ⟨⟨by rintro _ ⟨⟩,fun _ => rfl,by rintro _ ⟨⟩,Nat.one_pos⟩,fun id positive made _ => ?_,fun id _ => ⟨rfl,rfl⟩⟩
  have below : id < 1 := made
  omega
theorem run_books (inputs : List Input) : Books ((Link.new config opened).run parse inputs).requester := by
  induction inputs using List.reverseRecOn with
  | nil => exact new_books config opened
  | append_singleton inputs input ih =>
    rw [run_step]
    exact (step_course parse ih.sound input).books parse ih
theorem run_course (inputs : List Input) (input : Input) :
    Course parse ((Link.new config opened).run parse inputs) input
      ((Link.new config opened).run parse (inputs ++ [input])) := by
  rw [run_step]
  exact step_course parse (run_books parse config opened inputs).sound input
theorem run_parcels (inputs : List Input) :
    Parcels parse (Link.new config opened) inputs ((Link.new config opened).run parse inputs).requester := by
  induction inputs using List.reverseRecOn with
  | nil => exact ⟨by rintro _ ⟨⟩,by rintro _ _ ⟨⟩,by rintro _ ⟨⟩,by rintro _ _ ⟨⟩⟩
  | append_singleton inputs input ih =>
    exact (run_course parse config opened inputs input).parcels (run_books parse config opened inputs) ih
theorem run_ids (before after : List Input) : ((Link.new config opened).run parse before).nextId ≤
    ((Link.new config opened).run parse (before ++ after)).nextId := by
  induction after using List.reverseRecOn with
  | nil => rw [List.append_nil]
  | append_singleton after input ih =>
    rw [← List.append_assoc]
    rcases (run_course parse config opened (before ++ after) input).ids with ⟨_,same⟩ | ⟨_,next⟩ <;> omega
theorem returned_next {before : List Input} {ask : Input} {id : Nat}
    (returned : ((Link.new config opened).run parse before).returned ask = some id) :
    id = ((Link.new config opened).run parse before).nextId ∧
      ((Link.new config opened).run parse (before ++ [ask])).nextId = id + 1 := by
  rcases (run_course parse config opened before ask).ids with ⟨none,_⟩ | ⟨some,next⟩
  · rw [none] at returned
    cases returned
  · rw [some] at returned
    cases returned
    exact ⟨rfl,next⟩
theorem asked_once {id : Nat} {one two : Option Nat}
    (first : Asked parse (Link.new config opened) inputs id one)
    (second : Asked parse (Link.new config opened) inputs id two) :
    one = two := by
  have earlier {before rest other : List Input} {call last : Input} (split : other = before ++ call :: rest)
      (returned : ((Link.new config opened).run parse before).returned call = some id)
      (again : ((Link.new config opened).run parse other).returned last = some id) : False := by
    have next := (returned_next parse config opened returned).2
    have mono := run_ids parse config opened (before ++ [call]) rest
    rw [List.append_assoc,List.singleton_append,← split,next] at mono
    have same := (returned_next parse config opened again).1
    omega
  obtain ⟨before,ask,after,split,returned,rfl⟩ := first
  obtain ⟨before',ask',after',split',returned',rfl⟩ := second
  rcases List.append_eq_append_iff.mp (split.symm.trans split') with ⟨mid,same,rest⟩ | ⟨mid,same,rest⟩
  · cases mid with
    | nil => rw [List.nil_append,List.cons.injEq] at rest; rw [rest.1]
    | cons call mid =>
      rw [List.cons_append,List.cons.injEq] at rest
      rw [← rest.1] at same
      exact (earlier same returned returned').elim
  · cases mid with
    | nil => rw [List.nil_append,List.cons.injEq] at rest; rw [rest.1]
    | cons call mid =>
      rw [List.cons_append,List.cons.injEq] at rest
      rw [← rest.1] at same
      exact (earlier same returned' returned).elim
end

/-! ### Deadlines -/

section
variable {link : Link}

theorem close_owes (sound : Sound link.requester) (reason : CloseReason) (id : Nat) :
    ¬ (link.close reason).requester.owes id := by
  rintro ⟨pending,held,_⟩
  rw [((close_moves sound reason).sound sound).shut (close_closed link reason)] at held
  cases held
theorem abandon_owes (sound : Sound link.requester) {pending : Pending} (held : link.pending = some pending)
    (live : pending.draining = false) (now : Nat) (reason : CloseReason) (abandoned : Bool) (id : Nat) :
    ¬ (link.abandon now reason abandoned).requester.owes id := by
  simp only [Link.abandon,held]
  split
  · obtain ⟨report,_,same⟩ := giveUp_requester sound held live reason (abandonOutcome_fails reason abandoned)
    rw [same]
    rintro ⟨_,_,_⟩
    contradiction
  · obtain ⟨drained,report,_,_,_,flags,same⟩ :=
      drain_requester link now reason pending (abandonOutcome_fails reason abandoned)
    rw [same]
    rintro ⟨_,⟨rfl⟩,_,live⟩
    rw [flags.1] at live
    cases live
theorem requestTimer_owes (sound : Sound link.requester) (now id : Nat) :
    ¬ (link.requestTimer now).requester.owes id := by
  unfold Link.requestTimer
  split
  · rename_i pending held
    split
    · exact close_owes (show Sound (link.atTime now).requester from sound) _ id
    · rename_i live
      exact abandon_owes (show Sound (link.atTime now).requester from sound) held (by simpa using live) now _ false id
  · rename_i idle
    rintro ⟨pending,held,_⟩
    rw [show (link.atTime now).requester.pending = none from idle] at held
    cases held
theorem uploadTimer_owes (sound : Sound link.requester) (now id : Nat) :
    ¬ (link.uploadTimer now).requester.owes id := by
  unfold Link.uploadTimer
  rw [finishUpload_aside]
  exact close_owes (show Sound (link.atTime now).vacate.requester from sound) _ id
theorem tick_owes (sound : Sound link.requester) {pending : Pending} (held : link.pending = some pending)
    (due : pending.deadline ≤ now) (id : Nat) : ¬ (link.tick now).requester.owes id := by
  have fired : ∀ id, ¬ (link.fire now).requester.owes id := by
    intro id
    have request : link.requestDue now = some (pending.deadline,pending.timer) := by
      simp only [Link.requestDue,held,if_pos due]
    unfold Link.fire
    rw [request]
    cases link.uploadDue now with
    | none => exact requestTimer_owes sound _ id
    | some upload =>
      dsimp only
      split
      · exact requestTimer_owes sound _ id
      · exact uploadTimer_owes sound _ id
  have first := fire_moves sound now
  have second := fire_moves (first.sound sound) now
  rintro ⟨later,held',named,live⟩
  rcases second.pending later held' with same | ⟨draining,_⟩
  · exact fired later.id ⟨later,same,rfl,live⟩
  · exact absurd (live.symm.trans draining) (by simp)
end

/-! ### Calls that are refused -/

/-- What a request emits that is refused. -/
def Link.refusal (link : Link) : List LinkEvent :=
  [.resolved none none,.report ⟨none,if link.closed then .closed else .busy,0,false,false,link.closeReason⟩]
theorem startRequest_refuses (taken : link.closed = true ∨ link.busy = true) (now : Nat) (key : String)
    (timeoutMs : Nat) (expectedSize : Option Nat) (range : Option PieceRange) :
    (link.startRequest now key timeoutMs expectedSize range).1 = none ∧
      (link.startRequest now key timeoutMs expectedSize range).2.events = link.events ++ link.refusal := by
  have refused : (link.closed || link.pending.isSome) = true := by simpa [Link.busy] using taken
  unfold Link.startRequest
  rw [if_pos refused]
  exact ⟨rfl,List.append_assoc ..⟩

/-- Every request is resolved once and reported once, as payload with the bytes that
    arrived for it or as something else without bytes, and it is owed that only while it
    is pending, at the latest until a tick at its deadline or the close of the link. A
    request of a busy or closed link is refused; a range that does not fit its object
    is not asked for. -/
theorem requests_answered (parse : String → Option Json) (config : LinkConfig) (opened : Nat) (inputs : List Input) :
    let link := (Link.new config opened).run parse inputs
    (∀ before ask after id, inputs = before ++ ask :: after →
      ((Link.new config opened).run parse before).returned ask = some id →
        (resolutionsOf link.events id).length ≤ 1 ∧ (reportsOf link.events id).length ≤ 1 ∧
        (¬ link.requester.owes id → ∃ bytes told, resolutionsOf link.events id = [bytes] ∧
          reportsOf link.events id = [told] ∧
          (told.outcome = .payload ↔ bytes.isSome = true) ∧ ∀ payload, bytes = some payload →
            Delivered parse (Link.new config opened) inputs id payload ∧
              ∀ size, ask.expects = some size → size = payload.length)) ∧
    (∀ id, link.requester.owes id → link.closed = false ∧ ∃ pending, link.pending = some pending ∧
      ∀ now, pending.deadline ≤ now → ¬ (link.tick now).requester.owes id) ∧
    (link.closed = true ∨ link.busy = true →
      (∀ now key timeoutMs expectedSize, link.returned (.request now key timeoutMs expectedSize) = none ∧
        link.emitted parse (.request now key timeoutMs expectedSize) = link.refusal) ∧
      ∀ now key timeoutMs range objectSize, (rangeBytes objectSize range).isSome = true →
        link.returned (.requestRange now key timeoutMs range objectSize) = none ∧
          link.emitted parse (.requestRange now key timeoutMs range objectSize) = link.refusal) ∧
    ∀ now key timeoutMs range objectSize, rangeBytes objectSize range = none →
      link.returned (.requestRange now key timeoutMs range objectSize) = none ∧
        link.emitted parse (.requestRange now key timeoutMs range objectSize) = [] := by
  intro link
  have books := run_books parse config opened inputs
  have parcels := run_parcels parse config opened inputs
  refine ⟨fun before ask after id split returned => ?_,fun id owed => ?_,fun taken => ?_,
    fun now key timeoutMs range objectSize none => ?_⟩
  · have made : 0 < id ∧ id < link.nextId := by
      obtain ⟨same,next⟩ := returned_next parse config opened returned
      have mono := run_ids parse config opened (before ++ [ask]) after
      rw [List.append_assoc,List.singleton_append,← split,next] at mono
      exact ⟨same ▸ (run_books parse config opened before).sound.positive,mono⟩
    have settled (paid : ¬ link.requester.owes id) : Answered link.events id := by
      have answered := books.answered id made.1 made.2 paid
      simpa only [Answered,Link.requester,resolutionsOf_answers,reportsOf_answers] using answered
    have once : (resolutionsOf link.events id).length ≤ 1 ∧ (reportsOf link.events id).length ≤ 1 := by
      by_cases owed : link.requester.owes id
      · have silent := books.silent id (.inr (.inr owed))
        simp only [Link.requester,resolutionsOf_answers,reportsOf_answers] at silent
        rw [silent.1,silent.2]
        exact ⟨Nat.zero_le _,Nat.zero_le _⟩
      · obtain ⟨bytes,told,resolved,reported,_⟩ := settled owed
        rw [resolved,reported]
        exact ⟨le_rfl,le_rfl⟩
    refine ⟨once.1,once.2,fun paid => ?_⟩
    · obtain ⟨bytes,told,resolved,reported,payload⟩ := settled paid
      refine ⟨bytes,told,resolved,reported,payload,?_⟩
      rintro given rfl
      obtain ⟨delivered,expected,asked,wanted⟩ := parcels.given id given (by
        simp only [Link.requester,resolutionsOf_answers]
        rw [show resolutionsOf ((Link.new config opened).run parse inputs).events id = [some given] from resolved]
        exact List.mem_singleton_self _)
      have same := asked_once parse config opened asked ⟨before,ask,after,split,returned,rfl⟩
      exact ⟨delivered,fun size expects => wanted size (same.trans expects)⟩
  · obtain ⟨pending,held,named,live⟩ := owed
    refine ⟨?_,pending,held,fun now due => tick_owes books.sound held due id⟩
    cases closed : link.closed with
    | false => rfl
    | true =>
      rw [show link.requester.pending = none from books.sound.shut closed] at held
      cases held
  · have refused {now : Nat} {key : String} {timeoutMs : Nat} {expectedSize : Option Nat} {range : Option PieceRange} :
        (link.startRequest now key timeoutMs expectedSize range).1 = none ∧
          (link.drainEvents.2.startRequest now key timeoutMs expectedSize range).2.events = link.refusal :=
      ⟨(startRequest_refuses taken now key timeoutMs expectedSize range).1,
        (startRequest_refuses (show link.drainEvents.2.closed = true ∨
          link.drainEvents.2.busy = true from taken) now key timeoutMs expectedSize range).2⟩
    refine ⟨fun now key timeoutMs expectedSize => refused,fun now key timeoutMs range objectSize fits => ?_⟩
    obtain ⟨offsets,found⟩ := Option.isSome_iff_exists.mp fits
    simp only [Link.returned,Link.emitted,Link.step,Link.requestRange,found]
    exact refused
  · constructor
    · simp only [Link.returned,Link.requestRange,none]
    · simp only [Link.emitted,Link.step,Link.requestRange,none]
      rfl

/-- A request of a range that does not fit its object emits nothing, also while the link
    is busy. -/
theorem refused_silently : ¬ ∀ (parse : String → Option Json) (config : LinkConfig) (opened : Nat) (inputs : List Input)
    (input : Input), (∃ now key timeoutMs range objectSize, input = .requestRange now key timeoutMs range objectSize) →
      ((Link.new config opened).run parse inputs).busy = true →
      ((Link.new config opened).run parse inputs).returned input = none →
      ∃ report, ((Link.new config opened).run parse inputs).emitted parse input =
        [.resolved none none,.report report] := by
  intro told
  obtain ⟨report,emitted⟩ := told (fun _ => none) ⟨65536,4,3000,true⟩ 0 [.request 0 "" 1000 none]
    (.requestRange 1 "" 1000 ⟨1,1⟩ 65536) ⟨_,_,_,_,_,rfl⟩ (by decide +kernel) (by decide +kernel)
  have silent : ((Link.new ⟨65536,4,3000,true⟩ 0).run (fun _ => none) [.request 0 "" 1000 none]).emitted (fun _ => none)
      (.requestRange 1 "" 1000 ⟨1,1⟩ 65536) = [] := by decide +kernel
  rw [silent] at emitted
  cases emitted

end RelaySwarm.Links
