import RelaySwarm.LinkSilence
import Mathlib.Logic.Relation

/-!
A link as its requester sees it: the pending request, and the answers given so far.
Serving leaves this view alone. Whatever else an input does to it is a sequence of a
few moves (`Move`), after a request that is made (`Asks`), two frames apart: a `meta`
gives the pending request its size, and a chunk grows it.
-/
namespace RelaySwarm.Links
open Script Pieces

/-- An event that answers a request which was made. -/
def LinkEvent.answers : LinkEvent → Bool
  | .resolved id _ => id.isSome
  | .report told => told.id.isSome
  | _ => false
/-- What the requester knows of a link. -/
structure Requester where
  closed : Bool
  pending : Option Pending
  nextId : Nat
  answers : List LinkEvent
variable {r r' : Requester}
def Link.requester (link : Link) : Requester :=
  ⟨link.closed,link.pending,link.nextId,link.events.filter LinkEvent.answers⟩

/-! ### Serving leaves the requester alone -/

section
variable (link : Link)

theorem emit_aside {event : LinkEvent} (aside : event.answers = false) :
    (link.emit event).requester = link.requester := by
  simp [Link.requester,Link.emit,aside]
theorem sendText_aside (message : Message) : (link.sendText message).requester = link.requester := by
  unfold Link.sendText
  split
  · rfl
  · exact emit_aside link rfl
theorem startNextFrom_aside (queue : List Upload) : ∀ link :
    Link, (startNextFrom queue link).requester = link.requester := by
  induction queue with
  | nil => intro link; rfl
  | cons upload rest ih =>
    intro link
    unfold startNextFrom
    split
    · rfl
    · split
      · calc (startNextFrom rest ((link.emit (.uploadCancelled 0)).sendText (.none upload.id)).release).requester
          _ = ((link.emit (.uploadCancelled 0)).sendText (.none upload.id)).requester := ih _
          _ = (link.emit (.uploadCancelled 0)).requester := sendText_aside _ _
          _ = link.requester := emit_aside link rfl
      · split
        · exact ih _
        · have quiet : (serveEvent upload).answers = false := by
            unfold serveEvent
            cases upload.range <;> rfl
          exact emit_aside link quiet
theorem finishUpload_aside : link.finishUpload.requester = link.requester := startNextFrom_aside _ _
theorem decline_aside (upload : Upload) : (link.decline upload).requester = link.requester :=
  (finishUpload_aside _).trans (sendText_aside link _)
theorem endChunks_aside (now : Nat) (upload : Upload) (bytes : List UInt8) (sent : Nat) :
    (link.endChunks now upload bytes sent).requester = link.requester := by
  unfold Link.endChunks
  dsimp only
  rw [finishUpload_aside,sendText_aside]
  split
  · exact emit_aside _ rfl
  · rfl
theorem sendChunksFrom_aside (now : Nat) (upload : Upload) (bytes : List UInt8) (left : Nat) :
    ∀ (sent : Nat) (resumed : Bool) (link : Link),
      (sendChunksFrom now upload bytes left sent resumed link).requester = link.requester := by
  induction left with
  | zero => intro sent _ link; exact endChunks_aside link now upload bytes sent
  | succ left ih =>
    intro sent resumed link
    unfold sendChunksFrom
    split
    · exact endChunks_aside link now upload bytes sent
    · split
      · exact finishUpload_aside link
      · split
        · rfl
        · split
          · exact endChunks_aside link now upload bytes sent
          · refine (ih _ false _).trans ?_
            simp [Link.requester,Link.sendBinary,LinkEvent.answers]
theorem respond_aside (now : Nat) (upload : Upload) (bytes : Option (List UInt8)) (rangeObjectSize : Option Nat) :
    (link.respond now upload bytes rangeObjectSize).requester = link.requester := by
  unfold Link.respond
  split
  · exact decline_aside link upload
  · split
    · exact (decline_aside _ upload).trans (emit_aside link rfl)
    · split
      · exact finishUpload_aside link
      · exact (sendChunksFrom_aside now upload _ _ 0 false _).trans (sendText_aside link _)
theorem serveResponseInner_aside (now : Nat) (bytes : Option (List UInt8)) (rangeObjectSize : Option Nat) :
    (link.serveResponseInner now bytes rangeObjectSize).requester = link.requester := by
  unfold Link.serveResponseInner
  split
  · exact respond_aside _ now _ bytes rangeObjectSize
  · rfl
theorem resume_aside (now : Nat) : (link.resume now).requester = link.requester := by
  unfold Link.resume
  split
  · exact sendChunksFrom_aside now _ _ _ _ true _
  · rfl
theorem stopUpload_aside : link.stopUpload.requester = link.requester := by
  unfold Link.stopUpload
  split
  · exact finishUpload_aside _
  · rfl
end

/-! ### Moves -/

/-- A report about a request that ends without its bytes. -/
def Failed (id : Nat) (report : RequestReport) : Prop := report.id = some id ∧ report.outcome ≠ .payload
/-- A new request, of which nothing has arrived and nothing was told. -/
structure Asks (r : Requester) (pending : Pending) : Prop where
  running : r.closed = false
  idle : r.pending = none
  id : pending.id = r.nextId
  fresh : pending.size = none ∧ pending.parts = [] ∧ pending.received = 0
  flags : pending.draining = false ∧ pending.resolved = false ∧ pending.reported = false
def Requester.ask (r : Requester) (pending : Pending) : Requester :=
  { r with pending := some pending, nextId := r.nextId + 1 }
inductive Move (r : Requester) : Requester → Prop
  /-- It is resolved with its bytes, all of which arrived. -/
  | delivers {pending : Pending} {report : RequestReport} (held : r.pending = some pending)
      (live : pending.draining = false) (whole : pending.size = some pending.received)
      (told : report.id = some pending.id ∧ report.outcome = .payload) :
      Move r { r with
        pending := none, answers := r.answers ++ [.resolved (some pending.id) (some pending.parts),.report report] }
  /-- It is resolved without bytes, perhaps with the link. -/
  | fails {pending : Pending} {report : RequestReport} (closed : Bool) (held : r.pending = some pending)
      (live : pending.draining = false) (told : Failed pending.id report) (kept : r.closed = true → closed = true) :
      Move r { r with
        closed, pending := none, answers := r.answers ++ [.resolved (some pending.id) none,.report report] }
  /-- It is resolved without bytes, and its response is drained. -/
  | drains {pending drained : Pending} {report : RequestReport} (held : r.pending = some pending)
      (live : pending.draining = false) (told : Failed pending.id report) (id : drained.id = pending.id)
      (expected : drained.expected = pending.expected)
      (flags : drained.draining = true ∧ drained.resolved = true ∧ drained.reported = true) :
      Move r { r with
        pending := some drained, answers := r.answers ++ [.resolved (some pending.id) none,.report report] }
  /-- A drained response ends, perhaps with the link. -/
  | ends {pending : Pending} (closed : Bool) (held : r.pending = some pending) (concluded : pending.draining = true)
      (kept : r.closed = true → closed = true) : Move r { r with closed, pending := none }
  /-- The link closes without a pending request. -/
  | shuts (idle : r.pending = none) : Move r { r with closed := true }
def Moves : Requester → Requester → Prop := Relation.ReflTransGen Move

/-- The flags of a request say what was told of it: nothing, or all once it is drained. -/
def Pending.told (pending : Pending) : Prop := pending.resolved = pending.draining ∧ pending.reported = pending.draining
structure Sound (r : Requester) : Prop where
  told : ∀ pending, r.pending = some pending → pending.told
  shut : r.closed = true → r.pending = none
  named : ∀ pending, r.pending = some pending → 0 < pending.id ∧ pending.id < r.nextId
  positive : 0 < r.nextId

theorem Moves.refl (r : Requester) : Moves r r := Relation.ReflTransGen.refl
theorem Moves.of_eq (same : r' = r) : Moves r r' := same ▸ Moves.refl r
theorem Move.moves (move : Move r r') : Moves r r' := Relation.ReflTransGen.single move
theorem Moves.trans {a b c : Requester} (first : Moves a b) (second : Moves b c) : Moves a c :=
  Relation.ReflTransGen.trans first second

theorem Asks.sound {pending : Pending} (asks : Asks r pending) (sound : Sound r) :
    Sound (r.ask pending) := by
  refine ⟨?_,?_,?_,Nat.succ_pos _⟩
  · rintro _ ⟨rfl⟩
    exact ⟨asks.flags.2.1.trans asks.flags.1.symm,asks.flags.2.2.trans asks.flags.1.symm⟩
  · intro closed
    exact absurd (asks.running.symm.trans closed) (by simp)
  · rintro _ ⟨rfl⟩
    exact ⟨asks.id ▸ sound.positive,by rw [asks.id]; exact Nat.lt_succ_self _⟩
theorem Move.sound (move : Move r r') (sound : Sound r) : Sound r' := by
  cases move with
  | delivers => exact ⟨by simp,fun _ => rfl,by simp,sound.positive⟩
  | fails => exact ⟨by simp,fun _ => rfl,by simp,sound.positive⟩
  | @drains pending drained report held live told id expected flags =>
    refine ⟨?_,?_,?_,sound.positive⟩
    · rintro _ ⟨rfl⟩
      exact ⟨flags.2.1.trans flags.1.symm,flags.2.2.trans flags.1.symm⟩
    · intro closed
      rw [sound.shut closed] at held
      cases held
    · rintro _ ⟨rfl⟩
      rw [id]
      exact sound.named pending held
  | ends => exact ⟨by simp,fun _ => rfl,by simp,sound.positive⟩
  | shuts idle => exact ⟨sound.told,fun _ => idle,sound.named,sound.positive⟩
theorem Moves.sound (moves : Moves r r') (sound : Sound r) : Sound r' := by
  induction moves with
  | refl => exact sound
  | tail _ move ih => exact move.sound ih

/-! ### What each call does -/

section
variable {link : Link}

theorem settle_answers (link : Link) {pending : Pending} (told : pending.told) (bytes : Option (List UInt8))
    (outcome : Outcome) (reportNow : Bool) :
    (link.settle pending bytes outcome reportNow).filter LinkEvent.answers =
      if pending.draining then []
      else .resolved (some pending.id) bytes :: if reportNow then [.report (link.reportOf pending outcome)]
        else [] := by
  obtain ⟨resolved,reported⟩ := told
  unfold Link.settle
  rw [resolved,reported]
  cases pending.draining <;> cases reportNow <;> cases link.closed <;> rfl
theorem finish_requester {pending : Pending} (held : link.pending = some pending) (told : pending.told)
    (bytes : Option (List UInt8)) (outcome : Option Outcome) (reportNow : Bool) :
    (link.finish bytes outcome reportNow).requester = { link.requester with
      pending := none
      answers := link.requester.answers ++ if pending.draining then [] else
        .resolved (some pending.id) bytes ::
          if reportNow then [.report (link.reportOf pending (outcome.getD (if bytes.isSome then .payload else .none)))]
          else [] } := by
  simp only [Link.finish,held,Link.requester,List.filter_append,settle_answers link told]
theorem finish_idle (idle : link.pending = none) (bytes : Option (List UInt8)) (outcome : Option Outcome)
    (reportNow : Bool) : link.finish bytes outcome reportNow = link := by
  simp only [Link.finish,idle]
theorem finish_fails (sound : Sound link.requester) {outcome : Option Outcome} (without : outcome ≠ some .payload) :
    Moves link.requester (link.finish none outcome true).requester := by
  cases held : link.pending with
  | none => rw [finish_idle held]; exact .refl _
  | some pending =>
    rw [finish_requester held (sound.told pending held)]
    cases draining : pending.draining with
    | true =>
      have ends : Move link.requester { link.requester with pending := none } := .ends link.closed held draining id
      simpa using ends.moves
    | false =>
      refine (Move.fails link.closed held draining ⟨rfl,?_⟩ id).moves
      cases outcome with
      | none => simp [Link.reportOf]
      | some outcome => simpa [Link.reportOf] using without

theorem emit_closed_stop (link : Link) (reason : CloseReason) :
    ((link.emit (.closed reason)).stopUpload).requester = link.requester :=
  (stopUpload_aside _).trans (emit_aside link rfl)
theorem close_requester (running : link.closed = false) {pending : Pending} (held : link.pending = some pending)
    (told : pending.told) (reason : CloseReason) :
    ∃ report, Failed pending.id report ∧ (link.close reason).requester = { link.requester with
      closed := true, pending := none
      answers := link.requester.answers ++
        if pending.draining then [] else [.resolved (some pending.id) none,.report report] } := by
  have shut : (link.shut reason).pending = some pending := held
  refine ⟨(link.shut reason).reportOf pending (if reason = .sendError then .sendError else .closed),⟨rfl,?_⟩,?_⟩
  · simp only [Link.reportOf]
    split <;> simp
  · unfold Link.close
    rw [if_neg (by simp [running])]
    dsimp only
    rw [emit_closed_stop,finish_requester shut told]
    rfl
theorem close_moves (sound : Sound link.requester) (reason : CloseReason) :
    Moves link.requester (link.close reason).requester := by
  cases running : link.closed with
  | true =>
    rw [Link.close,if_pos running]
    exact .refl _
  | false =>
    cases held : link.pending with
    | none =>
      have shut : (link.shut reason).pending = none := held
      rw [Link.close,if_neg (by simp [running])]
      dsimp only
      rw [emit_closed_stop,finish_idle shut]
      exact (Move.shuts held).moves
    | some pending =>
      obtain ⟨report,failed,same⟩ := close_requester running held (sound.told pending held) reason
      rw [same]
      cases draining : pending.draining with
      | true =>
        have ends : Move link.requester { link.requester with closed := true, pending := none } :=
          .ends true held draining (fun _ => rfl)
        simpa using ends.moves
      | false => exact (Move.fails true held draining failed (fun _ => rfl)).moves
theorem close_closed (link : Link) (reason : CloseReason) : (link.close reason).closed = true := by
  have closed : (link.close reason).requester.closed = true := by
    unfold Link.close
    split
    · assumption
    · dsimp only
      rw [emit_closed_stop]
      cases held : (link.shut reason).pending with
      | none => rw [finish_idle held]; rfl
      | some pending => simp only [Link.finish,held]; rfl
  exact closed
theorem close_idle {reason : CloseReason} (idle : link.pending = none) :
    (link.close reason).requester = { link.requester with closed := true } := by
  unfold Link.close
  split
  · rename_i closed
    simp [Link.requester,closed]
  · dsimp only
    rw [emit_closed_stop,finish_idle (by exact idle)]
    rfl
theorem abandonOutcome_fails (reason : CloseReason) (abandoned : Bool) :
    abandonOutcome reason abandoned ≠ .payload := by
  unfold abandonOutcome
  split
  · simp
  · split <;> simp
theorem giveUp_requester (sound : Sound link.requester) {pending : Pending} (held : link.pending = some pending)
    (live : pending.draining = false) (reason : CloseReason) {outcome : Outcome} (without : outcome ≠ .payload) :
    ∃ report, Failed pending.id report ∧ (link.giveUp reason pending outcome).requester = { link.requester with
      closed := true, pending := none
      answers := link.requester.answers ++ [.resolved (some pending.id) none,.report report] } := by
  have told := sound.told pending held
  have reported : pending.reported = false := told.2.trans live
  have finished := finish_requester held told none (some outcome) false
  have idle : (link.finish none (some outcome) false).pending = none := congrArg Requester.pending finished
  have emitted (other : Link) (report : RequestReport) (answers : report.id.isSome = true) :
      (other.emit (.report report)).requester =
        { other.requester with answers := other.requester.answers ++ [.report report] } := by
    simp [Link.requester,Link.emit,LinkEvent.answers,answers]
  refine ⟨((link.finish none (some outcome) false).close reason).reportOf pending outcome,⟨rfl,without⟩,?_⟩
  simp only [Link.giveUp,reported,Bool.false_eq_true,if_false]
  rw [emitted _ _ rfl,close_idle idle,finished,live]
  simp
theorem drain_requester (link : Link) (now : Nat) (reason : CloseReason) (pending : Pending) {outcome : Outcome}
    (without : outcome ≠ .payload) : ∃ drained report, Failed pending.id report ∧ drained.id = pending.id ∧
      drained.expected = pending.expected ∧
      (drained.draining = true ∧ drained.resolved = true ∧ drained.reported = true) ∧
      (link.drain now reason pending outcome).requester = { link.requester with
        pending := some drained
        answers := link.requester.answers ++ [.resolved (some pending.id) none,.report report] } := by
  refine ⟨pending.drain reason (now + link.config.drainTimeoutMs) (link.timers + 1) (!link.silent),
    link.reportOf (pending.drain reason (now + link.config.drainTimeoutMs) (link.timers + 1) (!link.silent)) outcome,
    ⟨rfl,without⟩,rfl,rfl,⟨rfl,rfl,rfl⟩,?_⟩
  simp only [Link.drain,sendText_aside]
  simp [Link.requester,Link.emit,LinkEvent.answers,Link.reportOf]
theorem abandon_moves (sound : Sound link.requester) {pending : Pending} (held : link.pending = some pending)
    (live : pending.draining = false) (now : Nat) (reason : CloseReason) (abandoned : Bool) :
    Moves link.requester (link.abandon now reason abandoned).requester := by
  simp only [Link.abandon,held]
  split
  · obtain ⟨report,failed,same⟩ := giveUp_requester sound held live reason (abandonOutcome_fails reason abandoned)
    rw [same]
    exact (Move.fails true held live failed (fun _ => rfl)).moves
  · obtain ⟨drained,report,failed,id,expected,flags,same⟩ :=
      drain_requester link now reason pending (abandonOutcome_fails reason abandoned)
    rw [same]
    exact (Move.drains held live failed id expected flags).moves

theorem refuse_aside (link : Link) : link.refuse.requester = link.requester :=
  (emit_aside _ rfl).trans (emit_aside link rfl)
/-- A request is refused, or it is pending, or it has failed at once. -/
theorem startRequest_moves (sound : Sound link.requester) (now : Nat) (key : String) (timeoutMs : Nat)
    (expectedSize : Option Nat) (range : Option PieceRange) :
    (link.startRequest now key timeoutMs expectedSize range).2.requester = link.requester ∨
      ∃ pending, Asks link.requester pending ∧ pending.expected = expectedSize ∧
        (link.startRequest now key timeoutMs expectedSize range).1 = some pending.id ∧
        Moves (link.requester.ask pending) (link.startRequest now key timeoutMs expectedSize range).2.requester := by
  unfold Link.startRequest
  split
  · exact .inl (refuse_aside _)
  · rename_i free
    simp only [Bool.or_eq_true,Option.isSome_iff_ne_none,not_or,Bool.not_eq_true,ne_eq,not_not] at free
    obtain ⟨running,idle⟩ := free
    obtain ⟨pending,held⟩ : ∃ pending, (link.asking now timeoutMs expectedSize range).pending = some pending := ⟨_,rfl⟩
    have asks : Asks link.requester pending := by
      cases held
      exact ⟨running,idle,rfl,⟨rfl,rfl,rfl⟩,⟨rfl,rfl,rfl⟩⟩
    have asked : (link.asking now timeoutMs expectedSize range).requester = link.requester.ask pending := by
      cases held
      rfl
    refine .inr ⟨pending,asks,by cases held; rfl,congrArg some asks.id.symm,?_⟩
    rw [← asked]
    dsimp only
    split
    · exact finish_fails (by rw [asked]; exact asks.sound sound) (by simp)
    · exact .of_eq (sendText_aside _ _)
theorem requestRange_moves (sound : Sound link.requester) (now : Nat) (key : String) (timeoutMs : Nat)
    (range : PieceRange)
    (objectSize : Nat) : (link.requestRange now key timeoutMs range objectSize).2.requester = link.requester ∨
      ∃ pending, Asks link.requester pending ∧
        pending.expected = (rangeBytes objectSize range).map (fun offsets => offsets.2 - offsets.1) ∧
        (link.requestRange now key timeoutMs range objectSize).1 = some pending.id ∧
        Moves (link.requester.ask pending) (link.requestRange now key timeoutMs range objectSize).2.requester := by
  unfold Link.requestRange
  cases rangeBytes objectSize range with
  | none => exact .inl rfl
  | some offsets => exact startRequest_moves sound now key timeoutMs _ _
theorem abort_moves (sound : Sound link.requester) (now id : Nat) (abandoned : Bool) :
    Moves link.requester (link.abort now id abandoned).requester := by
  unfold Link.abort
  split
  · rename_i pending held
    split
    · rename_i named
      simp only [Bool.and_eq_true,decide_eq_true_eq,Bool.not_eq_true'] at named
      exact abandon_moves (show Sound (link.atTime now).requester from sound) held named.2 now _ abandoned
    · exact .refl _
  · exact .refl _
theorem requestTimer_moves (sound : Sound link.requester) (now : Nat) :
    Moves link.requester (link.requestTimer now).requester := by
  unfold Link.requestTimer
  split
  · rename_i pending held
    split
    · exact close_moves (show Sound (link.atTime now).requester from sound) _
    · rename_i live
      exact abandon_moves (show Sound (link.atTime now).requester from sound) held (by simpa using live) now _ false
  · exact .refl _
theorem uploadTimer_moves (sound : Sound link.requester) (now : Nat) :
    Moves link.requester (link.uploadTimer now).requester := by
  have closed : Moves link.requester ((link.atTime now).vacate.close .uploadDrainTimeout).requester :=
    close_moves (show Sound (link.atTime now).vacate.requester from sound) _
  exact closed.trans (.of_eq (finishUpload_aside _))
theorem fire_moves (sound : Sound link.requester) (now : Nat) : Moves link.requester (link.fire now).requester := by
  unfold Link.fire
  split
  · split
    · exact requestTimer_moves sound _
    · exact uploadTimer_moves sound _
  · exact requestTimer_moves sound _
  · exact uploadTimer_moves sound _
  · exact .refl _
theorem tick_moves (sound : Sound link.requester) (now : Nat) : Moves link.requester (link.tick now).requester := by
  have first := fire_moves sound now
  exact first.trans (fire_moves (first.sound sound) now)

/-! ### What each frame does -/

theorem onWant_moves (sound : Sound link.requester) (message : Fields) :
    Moves link.requester (link.onWant message).requester := by
  unfold Link.onWant
  split
  · split
    · exact close_moves sound _
    · split
      · exact close_moves sound _
      · exact .of_eq (startNextFrom_aside _ _)
  · exact .refl _
theorem onCancel_aside (link : Link) (now : Nat) (message : Fields) :
    (link.onCancel now message).requester = link.requester := by
  unfold Link.onCancel
  split
  · rfl
  · split
    · split
      · exact resume_aside _ now
      · rfl
    · rfl
/-- A message about a response is for the pending request, does nothing, or closes the
    link. -/
theorem namesPending_cases (link : Link) (message : Fields) (handle : Pending → Link) :
    link.namesPending message handle = link ∨ link.namesPending message handle = link.close .protocol ∨
      ∃ pending, link.pending = some pending ∧ sameNumber (field message "id") pending.id = true ∧
        link.namesPending message handle = handle pending := by
  unfold Link.namesPending
  split
  · exact .inl rfl
  · rename_i pending held
    split
    · exact .inr (.inr ⟨pending,held,‹_›,rfl⟩)
    · split
      · exact .inr (.inl rfl)
      · exact .inl rfl
/-- A `meta` names the pending request, is its first, and gives it the expected size. -/
structure Announced (message : Fields) (pending : Pending) (size : Nat) : Prop where
  named : sameNumber (field message "id") pending.id = true
  sized : (field message "size").bind safeInteger = some (size : Int)
  first : pending.size = none
  expected : ∀ expected, pending.expected = some expected → expected = size
theorem announced_of {message : Fields} {pending : Pending} {size : Int}
    (named : sameNumber (field message "id") pending.id = true) (first : pending.size = none)
    (matched : pending.breaks message = false) (read : (field message "size").bind safeInteger = some size)
    (positive : 1 ≤ size) : Announced message pending size.toNat := by
  refine ⟨named,by rw [read,Int.toNat_of_nonneg (by omega)],first,fun expected wanted => ?_⟩
  have same : sameNumber (field message "size") expected = true := by
    simp only [Pending.breaks,wanted,Option.any_some,Bool.or_eq_false_iff,Bool.not_eq_false'] at matched
    exact matched.2
  cases found : field message "size" with
  | none => rw [found] at read; cases read
  | some value =>
    rw [found] at read same
    have equal := sameNumber_safe (show safeInteger value = _ from read) same
    omega
theorem onMeta_moves (sound : Sound link.requester) (message : Fields) :
    Moves link.requester (link.onMeta message).requester ∨
      ∃ pending size, link.pending = some pending ∧ Announced message pending size ∧
        (link.onMeta message).requester =
          { link.requester with pending := some { pending with size := some size } } := by
  unfold Link.onMeta
  rcases namesPending_cases link message _ with same | same | ⟨pending,held,named,same⟩ <;> rw [same]
  · exact .inl (.refl _)
  · exact .inl (close_moves sound _)
  split
  · exact .inl (close_moves sound _)
  · rename_i first
    split
    · exact .inl (close_moves sound _)
    · rename_i matched
      split
      · rename_i size read
        split
        · rename_i bounds
          exact .inr ⟨pending,size.toNat,held,
            announced_of named (by simpa using first) (by simpa using matched) read bounds.1,rfl⟩
        · exact .inl (close_moves sound _)
      · exact .inl (close_moves sound _)
theorem onEof_moves (sound : Sound link.requester) (message : Fields) :
    Moves link.requester (link.onEof message).requester := by
  unfold Link.onEof
  rcases namesPending_cases link message _ with same | same | ⟨pending,held,named,same⟩ <;> rw [same]
  · exact .refl _
  · exact close_moves sound _
  split
  · exact finish_fails sound (by simp)
  · split
    · exact close_moves sound _
    · rename_i whole
      simp only [ne_eq,not_not] at whole
      split
      · exact finish_fails sound (by simp)
      · rename_i live
        rw [finish_requester held (sound.told pending held)]
        simp only [live,Bool.false_eq_true,if_false,if_true,Option.getD_none,Option.isSome_some]
        exact (Move.delivers held (by simpa using live) whole ⟨rfl,rfl⟩).moves
theorem onNone_moves (sound : Sound link.requester) (message : Fields) :
    Moves link.requester (link.onNone message).requester := by
  unfold Link.onNone
  rcases namesPending_cases link message _ with same | same | ⟨pending,held,named,same⟩ <;> rw [same]
  · exact .refl _
  · exact close_moves sound _
  split
  · exact close_moves sound _
  · exact finish_fails sound (by simp)
theorem onContribution_aside (link : Link) (now : Nat) (message : Fields) :
    (link.onContribution now message).requester = link.requester := by
  unfold Link.onContribution
  split
  · exact emit_aside _ rfl
  · rfl
theorem onFetching_aside (link : Link) (now : Nat) (message : Fields) :
    (link.onFetching now message).requester = link.requester := by
  unfold Link.onFetching
  split
  · split
    · exact emit_aside _ rfl
    · rfl
  · rfl
theorem onHave_aside (link : Link) (message : Fields) : (link.onHave message).requester = link.requester := by
  unfold Link.onHave
  dsimp only
  split
  · rfl
  · exact emit_aside _ rfl
/-- A frame whose text is a `meta`. -/
def Header (parse : String → Option Json) (input : Input) (message : Fields) : Prop :=
  ∃ now text, input = .text now text ∧ parse text = some (.object message) ∧
    (field message "t").bind Json.asString = some "meta"
theorem handleText_moves (parse : String → Option Json) (sound : Sound link.requester) (now : Nat) (text : String) :
    Moves link.requester (link.handleText parse now text).requester ∨
      ∃ message pending size, Header parse (.text now text) message ∧ link.pending = some pending ∧
        Announced message pending size ∧ (link.handleText parse now text).requester =
          { link.requester with pending := some { pending with size := some size } } := by
  have timed : Sound (link.atTime now).requester := sound
  unfold Link.handleText
  split
  · exact .inl (.refl _)
  · split
    · exact .inl (close_moves timed _)
    · split
      · rename_i message parsed
        unfold Link.handleMessage
        split
        · exact .inl (.of_eq (onContribution_aside _ now message))
        · exact .inl (.of_eq (onFetching_aside _ now message))
        · exact .inl (.of_eq (onHave_aside _ message))
        · exact .inl (onWant_moves timed message)
        · exact .inl (.of_eq (onCancel_aside _ now message))
        · rename_i tagged
          rcases onMeta_moves timed message with moves | ⟨pending,size,held,announced,same⟩
          · exact .inl moves
          · exact .inr ⟨message,pending,size,⟨now,text,rfl,parsed,tagged⟩,held,announced,same⟩
        · exact .inl (onEof_moves timed message)
        · exact .inl (onNone_moves timed message)
        · exact .inl (.refl _)
      · exact .inl (.refl _)
      · exact .inl (close_moves timed _)
theorem handleBinary_moves (sound : Sound link.requester) (now : Nat) (chunk : List UInt8) :
    Moves link.requester (link.handleBinary now chunk).requester ∧ (link.handleBinary now chunk).pending = none ∨
      ∃ pending size, link.pending = some pending ∧ pending.size = some size ∧ pending.received + chunk.length ≤ size ∧
        (link.handleBinary now chunk).requester = { link.requester with pending := some (pending.receive chunk) } := by
  have closes (other : Link) (sound : Sound other.requester) : (other.close .protocol).pending = none :=
    ((close_moves sound _).sound sound).shut (close_closed other _)
  unfold Link.handleBinary
  split
  · rename_i closed
    exact .inl ⟨.refl _,sound.shut closed⟩
  · rename_i running
    simp only [Bool.not_eq_true] at running
    split
    · rename_i idle
      exact .inl ⟨.refl _,idle⟩
    · rename_i pending held
      split
      · exact .inl ⟨close_moves (show Sound (link.atTime now).requester from sound) _,closes (link.atTime now) sound⟩
      · rename_i size sized
        split
        · exact .inl ⟨close_moves (show Sound (link.atTime now).requester from sound) _,closes (link.atTime now) sound⟩
        · have received : ((link.atTime now).receive pending chunk).requester =
              { link.requester with pending := some (pending.receive chunk) } := rfl
          dsimp only
          split
          · rename_i concluded
            refine .inl ⟨?_,?_⟩
            · obtain ⟨report,failed,same⟩ :=
                close_requester (show ((link.atTime now).receive pending chunk).closed = false from running) rfl
                (sound.told pending held) .protocol
              rw [same]
              cases draining : pending.draining with
              | true =>
                have ends : Move link.requester { link.requester with closed := true, pending := none } :=
                  .ends true held draining (fun _ => rfl)
                simpa [received,Pending.receive,draining] using ends.moves
              | false =>
                have fails : Move link.requester _ := .fails true held draining failed (fun _ => rfl)
                simpa [received,Pending.receive,draining] using fails.moves
            · obtain ⟨report,failed,same⟩ :=
                close_requester (show ((link.atTime now).receive pending chunk).closed = false from running) rfl
                (sound.told pending held) .protocol
              exact congrArg Requester.pending same
          · rename_i fits
            refine .inr ⟨pending,size,held,sized,by omega,?_⟩
            split
            · exact received
            · exact (emit_aside _ rfl).trans received
end

end RelaySwarm.Links
