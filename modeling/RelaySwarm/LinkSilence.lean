import RelaySwarm.Link

/-!
What a link sends while it is closed or its channel is not open. Texts go through one
guarded helper. Chunks do not: a response that was paused for the channel sends one
when it goes on, unless it was cancelled or the link is closed (`Resumes`).
-/
namespace RelaySwarm.Links
open Script Pieces

/-- Whether an event hands something to the channel. -/
def LinkEvent.sends : LinkEvent → Bool
  | .sendText _ => true
  | .sendBinary _ => true
  | _ => false

/-- A step that closes no channel and opens no link, only adds events, and adds none
    that sends when the link is silent before it. -/
structure Still (link next : Link) : Prop where
  closed : link.closed = true → next.closed = true
  channel : next.channelOpen = link.channelOpen
  quiet : ∃ tail, next.events = link.events ++ tail ∧ (link.silent = true → ∀ event ∈ tail, event.sends = false)

theorem Still.silent {link next : Link} (still : Still link next) (silent : link.silent = true) :
    next.silent = true := by
  simp only [Link.silent,Bool.or_eq_true,Bool.not_eq_true'] at silent ⊢
  rcases silent with closed | channel
  · exact .inl (still.closed closed)
  · exact .inr (still.channel.trans channel)
theorem Still.trans {a b c : Link} (first : Still a b) (second : Still b c) : Still a c := by
  obtain ⟨one,events,quiet⟩ := first.quiet
  obtain ⟨two,events',quiet'⟩ := second.quiet
  refine ⟨fun closed => second.closed (first.closed closed),second.channel.trans first.channel,one ++ two,
    by rw [events',events,List.append_assoc],fun silent event member => ?_⟩
  rcases List.mem_append.mp member with early | late
  · exact quiet silent event early
  · exact quiet' (first.silent silent) event late
/-- Events that send nothing may be added, and everything but the state of the channel
    may change. -/
theorem Still.adds {link next : Link} (tail : List LinkEvent) (closed : link.closed = true → next.closed = true)
    (channel : next.channelOpen = link.channelOpen) (events : next.events = link.events ++ tail)
    (quiet : ∀ event ∈ tail, event.sends = false) : Still link next :=
  ⟨closed,channel,tail,events,fun _ => quiet⟩
theorem Still.same {link next : Link} (closed : link.closed = true → next.closed = true)
    (channel : next.channelOpen = link.channelOpen) (events : next.events = link.events) : Still link next :=
  .adds [] closed channel (by rw [events,List.append_nil]) (by simp)
theorem Still.refl (link : Link) : Still link link := .same id rfl rfl
theorem atTime_still (link : Link) (now : Nat) : Still link (link.atTime now) := .same id rfl rfl
theorem release_still (link : Link) : Still link link.release := .same id rfl rfl
theorem vacate_still (link : Link) : Still link link.vacate := .same id rfl rfl

section
variable (link : Link)

theorem emit_still {event : LinkEvent} (quiet : event.sends = false) : Still link (link.emit event) :=
  .adds [event] id rfl rfl (by simpa using quiet)
theorem sendText_still (message : Message) : Still link (link.sendText message) := by
  unfold Link.sendText
  cases silent : link.silent with
  | true => exact .refl link
  | false =>
    exact ⟨id,rfl,[.sendText message],rfl,fun loud => absurd (silent.symm.trans loud) (by simp)⟩
theorem settle_quiet (pending : Pending) (bytes : Option (List UInt8)) (outcome : Outcome) (reportNow : Bool) :
    ∀ event ∈ link.settle pending bytes outcome reportNow, event.sends = false := by
  intro event member
  unfold Link.settle at member
  rcases List.mem_append.mp member with early | report
  · rcases List.mem_append.mp early with resolved | schedule
    · split_ifs at resolved
      · cases resolved
      · rw [List.mem_singleton.mp resolved]; rfl
    · split_ifs at schedule
      · rw [List.mem_singleton.mp schedule]; rfl
      · cases schedule
  · split_ifs at report
    · rw [List.mem_singleton.mp report]; rfl
    · cases report
theorem finish_still (bytes : Option (List UInt8)) (outcome : Option Outcome) (reportNow : Bool) :
    Still link (link.finish bytes outcome reportNow) := by
  unfold Link.finish
  cases link.pending with
  | none => exact .refl link
  | some pending => exact .adds _ id rfl rfl (settle_quiet link pending bytes _ reportNow)

/-! ### Serving -/

theorem serveEvent_quiet (upload : Upload) : (serveEvent upload).sends = false := by
  unfold serveEvent
  cases upload.range <;> rfl
theorem startNextFrom_still (queue : List Upload) : ∀ link : Link, Still link (startNextFrom queue link) := by
  induction queue with
  | nil => intro link; exact .same id rfl rfl
  | cons upload rest ih =>
    intro link
    unfold startNextFrom
    by_cases busy : link.active.isSome
    · rw [if_pos busy]; exact .same id rfl rfl
    · rw [if_neg busy]
      by_cases cancelled : upload.cancelled
      · rw [if_pos cancelled]
        have declined : Still link ((link.emit (.uploadCancelled 0)).sendText (.none upload.id)) :=
          (emit_still link rfl).trans (sendText_still _ _)
        exact (declined.trans (release_still _)).trans (ih _)
      · rw [if_neg cancelled]
        by_cases closed : link.closed
        · rw [if_pos closed]
          exact (release_still link).trans (ih _)
        · rw [if_neg closed]
          exact (emit_still link (serveEvent_quiet upload)).trans (.same id rfl rfl)
theorem startNext_still : Still link link.startNext := startNextFrom_still _ _
theorem finishUpload_still : Still link link.finishUpload :=
  (release_still link).trans (startNext_still _)
theorem endChunks_still (now : Nat) (upload : Upload) (bytes : List UInt8) (sent : Nat) :
    Still link (link.endChunks now upload bytes sent) := by
  unfold Link.endChunks
  refine Still.trans ?_ ((sendText_still _ _).trans (finishUpload_still _))
  split_ifs
  · exact Still.adds [_] id rfl rfl (by simp [LinkEvent.sends])
  · exact .same id rfl rfl
/-- A silent link sends no chunk of a response that is cancelled or at its end, and
    none at all once it is closed. -/
theorem sendChunksFrom_still (now : Nat) (upload : Upload) (bytes : List UInt8) (left : Nat) :
    ∀ (sent : Nat) (resumed : Bool) (link : Link),
      (link.silent = true → link.closed = true ∨ upload.cancelled = true ∨ bytes.length ≤ sent) →
      Still link (sendChunksFrom now upload bytes left sent resumed link) := by
  induction left with
  | zero => intro sent _ link _; exact endChunks_still link now upload bytes sent
  | succ left ih =>
    intro sent resumed link stays
    unfold sendChunksFrom
    by_cases done : bytes.length ≤ sent
    · rw [if_pos done]; exact endChunks_still link now upload bytes sent
    rw [if_neg done]
    by_cases closed : link.closed
    · rw [if_pos closed]; exact finishUpload_still link
    rw [if_neg closed]
    by_cases full : (!resumed && decide (highWaterBytes < link.buffered)) = true
    · rw [if_pos full]; exact .same id rfl rfl
    rw [if_neg full]
    by_cases cancelled : upload.cancelled
    · rw [if_pos cancelled]; exact endChunks_still link now upload bytes sent
    rw [if_neg cancelled]
    have loud : link.silent = false := by
      cases silent : link.silent with
      | false => rfl
      | true => rcases stays silent with h | h | h <;> contradiction
    have chunk : Still link (link.sendBinary bytes sent (min (sent + chunkBytes) bytes.length)) :=
      ⟨id,rfl,_,rfl,fun silent => absurd (loud.symm.trans silent) (by simp)⟩
    exact chunk.trans (ih _ false _ (fun silent => absurd (loud.symm.trans silent) (by simp)))
theorem sendChunksFrom_grows (now : Nat) (upload : Upload) (bytes : List UInt8) (left : Nat) :
    ∀ (sent : Nat) (resumed : Bool) (link : Link), link.events <+:
      (sendChunksFrom now upload bytes left sent resumed link).events := by
  have whole (sent : Nat) (link : Link) : link.events <+: (link.endChunks now upload bytes sent).events := by
    obtain ⟨tail,events,_⟩ := (endChunks_still link now upload bytes sent).quiet
    exact ⟨tail,events.symm⟩
  induction left with
  | zero => intro sent _ link; exact whole sent link
  | succ left ih =>
    intro sent resumed link
    unfold sendChunksFrom
    split
    · exact whole sent link
    · split
      · obtain ⟨tail,events,_⟩ := (finishUpload_still link).quiet
        exact ⟨tail,events.symm⟩
      · split
        · exact List.prefix_rfl
        · split
          · exact whole sent link
          · have chunk : link.events <+: (link.sendBinary bytes sent (min (sent + chunkBytes) bytes.length)).events :=
              List.prefix_append _ _
            exact chunk.trans (ih _ false _)
theorem decline_still (upload : Upload) : Still link (link.decline upload) :=
  (sendText_still _ _).trans (finishUpload_still _)
theorem respond_still (now : Nat) (upload : Upload) (bytes : Option (List UInt8)) (rangeObjectSize : Option Nat) :
    Still link (link.respond now upload bytes rangeObjectSize) := by
  unfold Link.respond
  cases bytes.bind fun bytes => responseBytes link.config upload.range bytes rangeObjectSize with
  | none => exact decline_still link upload
  | some held =>
    dsimp only
    by_cases cancelled : upload.cancelled
    · rw [if_pos cancelled]
      exact (emit_still link rfl).trans (decline_still _ upload)
    · cases silent : link.silent with
      | true =>
        rw [if_neg cancelled,if_pos rfl]
        exact finishUpload_still link
      | false =>
        rw [if_neg cancelled,if_neg (by simp)]
        have header := sendText_still link (.metadata upload.id held.length upload.range)
        refine header.trans (sendChunksFrom_still now upload held _ 0 false _ (fun loud => ?_))
        have same : (link.sendText (.metadata upload.id held.length upload.range)).silent = link.silent := by
          rw [Link.sendText,if_neg (by simp [silent])]; rfl
        rw [same,silent] at loud
        cases loud
theorem serveResponseInner_still (now : Nat) (bytes : Option (List UInt8)) (rangeObjectSize : Option Nat) :
    Still link (link.serveResponseInner now bytes rangeObjectSize) := by
  unfold Link.serveResponseInner
  split
  · exact ((atTime_still link now).trans (vacate_still _)).trans (respond_still _ now _ bytes rangeObjectSize)
  · exact atTime_still link now

/-- The paused response that a link would send a chunk of: not cancelled, with bytes
    left to send. -/
def Link.paused (link : Link) : Bool :=
  match link.active with
  | some ⟨upload,.draining bytes sent _ _⟩ => !upload.cancelled && sent < bytes.length
  | _ => false
theorem resume_still {link : Link} (now : Nat) (idle : link.silent = true → link.closed = true ∨ link.paused = false) :
    Still link (link.resume now) := by
  unfold Link.resume
  split
  · rename_i upload bytes sent deadline timer active
    refine (vacate_still link).trans (sendChunksFrom_still now upload bytes _ sent true _ (fun silent => ?_))
    rcases idle silent with closed | still
    · exact .inl closed
    · simp only [Link.paused,active,Bool.and_eq_false_iff,Bool.not_eq_false',decide_eq_false_iff_not,not_lt] at still
      exact .inr still
  · exact .refl link

/-! ### Closing, abandoning and asking -/

theorem stopUpload_still : Still link link.stopUpload := by
  unfold Link.stopUpload
  split_ifs
  · exact (vacate_still link).trans (finishUpload_still _)
  · exact .refl link
theorem shut_still (reason : CloseReason) : Still link (link.shut reason) := .same (fun _ => rfl) rfl rfl
theorem close_still (reason : CloseReason) : Still link (link.close reason) := by
  unfold Link.close
  by_cases closed : link.closed
  · rw [if_pos closed]; exact .refl link
  · rw [if_neg closed]
    exact (shut_still link reason).trans ((finish_still _ _ _ _).trans ((emit_still _ rfl).trans (stopUpload_still _)))
theorem giveUp_still (reason : CloseReason) (pending : Pending) (outcome : Outcome) :
    Still link (link.giveUp reason pending outcome) := by
  have closed : Still link ((link.finish .none (some outcome) false).close reason) :=
    (finish_still link _ _ _).trans (close_still _ reason)
  unfold Link.giveUp
  dsimp only
  split
  · exact closed
  · exact closed.trans (emit_still _ rfl)
theorem drain_still (now : Nat) (reason : CloseReason) (pending : Pending) (outcome : Outcome) :
    Still link (link.drain now reason pending outcome) := by
  refine Still.trans ?_ (sendText_still _ _)
  exact .adds [.resolved (some pending.id) .none,.report _] id rfl (List.append_assoc ..) (by simp [LinkEvent.sends])
theorem abandon_still (now : Nat) (reason : CloseReason) (abandoned : Bool) :
    Still link (link.abandon now reason abandoned) := by
  unfold Link.abandon
  split
  · split
    · exact close_still link reason
    · exact .same id rfl rfl
  · split
    · exact giveUp_still link reason _ _
    · exact drain_still link now reason _ _
theorem startRequest_still (now : Nat) (key : String) (timeoutMs : Nat) (expectedSize : Option Nat)
    (range : Option PieceRange) : Still link (link.startRequest now key timeoutMs expectedSize range).2 := by
  have asked : Still link (link.asking now timeoutMs expectedSize range) := .same id rfl rfl
  unfold Link.startRequest
  split
  · exact (atTime_still link now).trans ((emit_still _ rfl).trans (emit_still _ rfl))
  · dsimp only
    split
    · exact asked.trans (finish_still _ _ _ _)
    · exact asked.trans (sendText_still _ _)
theorem requestRange_still (now : Nat) (key : String) (timeoutMs : Nat) (range : PieceRange) (objectSize : Nat) :
    Still link (link.requestRange now key timeoutMs range objectSize).2 := by
  unfold Link.requestRange
  split
  · exact .refl link
  · exact startRequest_still link now key timeoutMs _ _
theorem abort_still (now id : Nat) (abandoned : Bool) : Still link (link.abort now id abandoned) := by
  unfold Link.abort
  split
  · split_ifs
    · exact (atTime_still link now).trans (abandon_still _ now _ abandoned)
    · exact atTime_still link now
  · exact atTime_still link now
theorem requestTimer_still (now : Nat) : Still link (link.requestTimer now) := by
  unfold Link.requestTimer
  split
  · split_ifs
    · exact (atTime_still link now).trans (close_still _ _)
    · exact (atTime_still link now).trans (abandon_still _ now _ _)
  · exact atTime_still link now
theorem uploadTimer_still (now : Nat) : Still link (link.uploadTimer now) :=
  ((atTime_still link now).trans (vacate_still _)).trans ((close_still _ _).trans (finishUpload_still _))
theorem fire_still (now : Nat) : Still link (link.fire now) := by
  unfold Link.fire
  split
  · split_ifs
    · exact requestTimer_still link _
    · exact uploadTimer_still link _
  · exact requestTimer_still link _
  · exact uploadTimer_still link _
  · exact .refl link
theorem tick_still (now : Nat) : Still link (link.tick now) := (fire_still link now).trans (fire_still _ now)

/-! ### Frames -/

theorem onWant_still (message : Fields) : Still link (link.onWant message) := by
  unfold Link.onWant
  split
  · split
    · exact close_still link _
    · split_ifs
      · exact close_still link _
      · have queued (upload : Upload) : Still link (link.enqueue upload) := .same id rfl rfl
        exact (queued _).trans (startNext_still _)
  · exact .refl link
theorem cancelUploads_unpaused {link : Link} {id : Int} {upload : Upload} {stage : Stage}
    (active : (link.cancelUploads id).active = some ⟨upload,stage⟩) (mine : upload.id = id) :
    (link.cancelUploads id).paused = false := by
  obtain ⟨old,_,renamed⟩ := Option.map_eq_some_iff.mp active
  have same : old.upload.cancel id = upload := congrArg Active.upload renamed
  have cancelled : upload.cancelled = true := by
    rw [← same] at mine ⊢
    unfold Upload.cancel at mine ⊢
    split_ifs at mine ⊢ with equal
    · rfl
    · exact absurd mine equal
  unfold Link.paused
  rw [active]
  cases stage with
  | awaitingBytes => rfl
  | draining => simp [cancelled]
theorem onCancel_still (now : Nat) (message : Fields) : Still link (link.onCancel now message) := by
  unfold Link.onCancel
  split
  · exact .refl link
  · rename_i id named
    have cancelled : Still link (link.cancelUploads id) := .same (fun closed => closed) rfl rfl
    split
    · split_ifs with mine
      · exact cancelled.trans (resume_still now (fun _ => .inr (cancelUploads_unpaused ‹_› mine)))
      · exact cancelled
    · exact cancelled
theorem namesPending_still (message : Fields) {handle : Pending → Link}
    (each : ∀ pending, Still link (handle pending)) :
    Still link (link.namesPending message handle) := by
  unfold Link.namesPending
  split
  · exact .refl link
  · split_ifs
    · exact each _
    · exact close_still link _
    · exact .refl link
theorem onMeta_still (message : Fields) : Still link (link.onMeta message) := by
  refine namesPending_still link message (fun pending => ?_)
  split_ifs
  · exact close_still link _
  · exact close_still link _
  · split
    · split_ifs
      · exact .same id rfl rfl
      · exact close_still link _
    · exact close_still link _
theorem onEof_still (message : Fields) : Still link (link.onEof message) := by
  refine namesPending_still link message (fun pending => ?_)
  split_ifs
  · exact finish_still link _ _ _
  · exact close_still link _
  · exact finish_still link _ _ _
  · exact finish_still link _ _ _
theorem onNone_still (message : Fields) : Still link (link.onNone message) := by
  refine namesPending_still link message (fun pending => ?_)
  split_ifs
  · exact close_still link _
  · exact finish_still link _ _ _
theorem onContribution_still (now : Nat) (message : Fields) : Still link (link.onContribution now message) := by
  unfold Link.onContribution
  split
  · exact .adds [_] id rfl rfl (by simp [LinkEvent.sends])
  · exact .refl link
theorem onFetching_still (now : Nat) (message : Fields) : Still link (link.onFetching now message) := by
  unfold Link.onFetching
  split
  · split
    · exact .adds [_] id rfl rfl (by simp [LinkEvent.sends])
    · exact .refl link
  · exact .refl link
theorem onHave_still (message : Fields) : Still link (link.onHave message) := by
  unfold Link.onHave
  dsimp only
  split
  · exact .same id rfl rfl
  · exact .adds [_] id rfl rfl (by simp [LinkEvent.sends])
theorem handleMessage_still (now : Nat) (message : Fields) : Still link (link.handleMessage now message) := by
  unfold Link.handleMessage
  split
  · exact onContribution_still link now message
  · exact onFetching_still link now message
  · exact onHave_still link message
  · exact onWant_still link message
  · exact onCancel_still link now message
  · exact onMeta_still link message
  · exact onEof_still link message
  · exact onNone_still link message
  · exact .refl link
theorem handleText_still (parse : String → Option Json) (now : Nat) (text : String) :
    Still link (link.handleText parse now text) := by
  unfold Link.handleText
  split_ifs
  · exact atTime_still link now
  · exact (atTime_still link now).trans (close_still _ _)
  · split
    · exact (atTime_still link now).trans (handleMessage_still _ now _)
    · exact atTime_still link now
    · exact (atTime_still link now).trans (close_still _ _)
theorem handleBinary_still (now : Nat) (chunk : List UInt8) : Still link (link.handleBinary now chunk) := by
  have timed := atTime_still link now
  have received (pending : Pending) : Still link ((link.atTime now).receive pending chunk) := .same id rfl rfl
  unfold Link.handleBinary
  split
  · exact timed
  · split
    · exact timed
    · split
      · exact timed.trans (close_still _ _)
      · split
        · exact timed.trans (close_still _ _)
        · dsimp only
          split
          · exact (received _).trans (close_still _ _)
          · split
            · exact received _
            · exact (received _).trans (emit_still _ rfl)
end

/-! ### Runs -/

/-- A response that is paused goes on while its channel is not open. -/
def Resumes (link : Link) (input : Input) : Prop :=
  link.closed = false ∧ link.channelOpen = false ∧ link.paused = true ∧
    ∃ now buffered, input = .bufferedAmountLow now buffered

section
variable (parse : String → Option Json)

theorem step_still {link : Link} {input : Input} (fixed : ∀ isOpen, input ≠ .setChannelOpen isOpen)
    (idle : ¬ Resumes link input) : Still link (link.step parse input) := by
  cases input with
  | sendHave keys => exact sendText_still link _
  | sendHaveChange add del =>
    simp only [Link.step,Link.sendHaveChange]
    split
    · exact .refl link
    · exact sendText_still link _
  | sendContribution serving rendition => exact sendText_still link _
  | sendFetching key leaseMs => exact sendText_still link _
  | request now key timeoutMs expectedSize => exact startRequest_still link now key timeoutMs expectedSize _
  | requestRange now key timeoutMs range objectSize => exact requestRange_still link now key timeoutMs range objectSize
  | abort now id abandoned => exact abort_still link now id abandoned
  | close reason => exact close_still link _
  | tick now => exact tick_still link now
  | text now text => exact handleText_still link parse now text
  | binary now chunk => exact handleBinary_still link now chunk
  | serveResponse now bytes => exact serveResponseInner_still link now bytes _
  | serveRangeResponse now objectSize bytes => exact serveResponseInner_still link now _ _
  | bufferedAmountLow now buffered =>
    have told : Still link ((link.atTime now).observeBuffered buffered) := .same id rfl rfl
    refine told.trans (resume_still now (fun silent => ?_))
    simp only [Link.silent,Bool.or_eq_true,Bool.not_eq_true'] at silent
    rcases silent with closed | channel
    · exact .inl closed
    · cases closed : link.closed with
      | true => exact .inl closed
      | false => exact .inr (Bool.eq_false_iff.mpr (fun paused => idle ⟨closed,channel,paused,now,buffered,rfl⟩))
  | observeBuffered buffered => exact .same id rfl rfl
  | setChannelOpen isOpen => exact absurd rfl (fixed isOpen)
  | setReliable reliable => exact .same id rfl rfl
theorem resumes_sends {link : Link} {input : Input} (resumes : Resumes link input) :
    ∃ chunk, .sendBinary chunk ∈ link.emitted parse input := by
  obtain ⟨running,_,paused,now,buffered,rfl⟩ := resumes
  unfold Link.paused at paused
  split at paused
  · rename_i upload bytes sent deadline timer active
    simp only [Bool.and_eq_true,Bool.not_eq_true',decide_eq_true_eq] at paused
    obtain ⟨wanted,short⟩ := paused
    obtain ⟨left,enough⟩ : ∃ left, bytes.length - sent = left + 1 := ⟨bytes.length - sent - 1,by omega⟩
    have resumed : link.emitted parse (.bufferedAmountLow now buffered) =
        (sendChunksFrom now upload bytes (left + 1) sent true
          ((link.drainEvents.2.atTime now).observeBuffered buffered).vacate).events := by
      simp only [Link.emitted,Link.step,Link.bufferedAmountLow,Link.drainEvents,Link.resume,Link.atTime,
        Link.observeBuffered,active,Link.sendChunks,enough]
    have isOpen : ((link.drainEvents.2.atTime now).observeBuffered buffered).vacate.closed = false := running
    have first : ∃ chunk, .sendBinary chunk ∈
        (((link.drainEvents.2.atTime now).observeBuffered buffered).vacate.sendBinary bytes sent
          (min (sent + chunkBytes) bytes.length)).events := ⟨_,List.mem_append_right _ (List.mem_singleton.mpr rfl)⟩
    obtain ⟨chunk,member⟩ := first
    refine ⟨chunk,?_⟩
    rw [resumed]
    unfold sendChunksFrom
    rw [if_neg (by omega),if_neg (by simp [isOpen]),if_neg (by simp),if_neg (by simp [wanted])]
    exact (sendChunksFrom_grows now upload bytes left _ false _).subset member
  · cases paused
theorem emitted_quiet {link : Link} {input : Input} (silent : link.silent = true) :
    (∀ event ∈ link.emitted parse input, event.sends = false) ↔ ¬ Resumes link input := by
  constructor
  · intro quiet resumes
    obtain ⟨chunk,member⟩ := resumes_sends parse resumes
    exact absurd (quiet _ member) (by simp [LinkEvent.sends])
  · intro idle
    by_cases fixed : ∀ isOpen, input ≠ .setChannelOpen isOpen
    · have still : Still link.drainEvents.2 (link.drainEvents.2.step parse input) := step_still parse fixed idle
      obtain ⟨tail,events,quiet⟩ := still.quiet
      have all : link.emitted parse input = tail := events
      rw [all]
      exact quiet silent
    · obtain ⟨isOpen,rfl⟩ := not_forall_not.mp fixed
      intro event member
      cases member

/-- Nothing is sent by a run while the link is closed or its channel is not open,
    exactly when no paused response of an open link goes on while its channel is not
    open. -/
theorem silent_runs_iff (config : LinkConfig) (opened : Nat) (inputs : List Input) :
    (∀ before input after, inputs = before ++ input :: after →
      ((Link.new config opened).run parse before).silent = true →
      ∀ event ∈ ((Link.new config opened).run parse before).emitted parse input, event.sends = false) ↔
    ∀ before input after, inputs = before ++ input :: after →
      ¬ Resumes ((Link.new config opened).run parse before) input := by
  constructor
  · intro quiet before input after split resumes
    have silent : ((Link.new config opened).run parse before).silent = true := by
      simp [Link.silent,resumes.2.1]
    exact (emitted_quiet parse silent).mp (quiet before input after split silent) resumes
  · intro idle before input after split silent
    exact (emitted_quiet parse silent).mpr (idle before input after split)
end

/-- A parser of one text: the want of one object. -/
private def parseWant (text : String) : Option Json :=
  if text = "want" then
    some (.object [("t",.string "want"),("id",.number 1),
      ("k",.string "0000000000000000000000000000000000000000000000000000000000000000")])
  else none
/-- An object of one byte is paused for the channel, which then stops being open. -/
private def pausedInputs : List Input :=
  [.text 0 "want",.observeBuffered 131073,.serveResponse 1 (some [7]),.setChannelOpen false]
/-- The byte is still sent when the buffered amount is low. -/
theorem closed_channel_sends : ¬ ∀ (parse : String → Option Json) (config : LinkConfig) (opened : Nat)
    (before : List Input) (input : Input), ((Link.new config opened).run parse before).silent = true →
      ∀ event ∈ ((Link.new config opened).run parse before).emitted parse input, event.sends = false := by
  intro quiet
  have sent := quiet parseWant ⟨65536,4,3000,true⟩ 0 pausedInputs (.bufferedAmountLow 2 0) (by decide +kernel)
    (.sendBinary [7]) (by decide +kernel)
  cases sent

end RelaySwarm.Links
