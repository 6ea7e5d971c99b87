import RelaySwarm.LinkUploads

/-!
Runs of a link that serves. In every run each response in flight is counted once, and
never more are in flight than were configured; while the link and its channel are open,
the requests it accepted are answered in their order, one after another
(`uploads_accounted`).
-/
namespace RelaySwarm.Links
open Script Pieces

variable {made : Link} {last : List LinkEvent}
theorem Turn.room {s s' : Server} (turn : Turn s s') : s'.room = s.room := by
  cases turn <;> rfl
theorem Turns.room {s s' : Server} (turns : Turns s s') : s'.room = s.room := by
  induction turns with
  | refl => rfl
  | tail _ turn ih => exact turn.room.trans ih

/-! ### A closed link -/

section
variable (link : Link)

@[simp] theorem sendText_closed (message : Message) : (link.sendText message).closed = link.closed := by
  unfold Link.sendText
  split <;> rfl
theorem startNextFrom_closed (queue : List Upload) : ∀ link : Link, link.closed = true → link.active = none →
    (startNextFrom queue link).active = none := by
  induction queue with
  | nil => exact fun link _ idle => idle
  | cons upload rest ih =>
    intro link closed idle
    unfold startNextFrom
    rw [if_neg (by rw [idle]; exact Bool.false_ne_true)]
    split
    · refine ih _ ?_ ?_
      · exact (sendText_closed (link.emit (.uploadCancelled 0)) _).trans closed
      · exact (sendText_active _ _).trans idle
    · exact ih _ closed idle
theorem finishUpload_closed (closed : link.closed = true) (idle : link.active = none) :
    link.finishUpload.active = none :=
  startNextFrom_closed _ _ closed idle
theorem decline_closed (closed : link.closed = true) (idle : link.active = none) (upload : Upload) :
    (link.decline upload).active = none :=
  finishUpload_closed _ ((sendText_closed link _).trans closed) ((sendText_active link _).trans idle)
theorem respond_closed (closed : link.closed = true) (idle : link.active = none) (now : Nat) (upload : Upload)
    (bytes : Option (List UInt8))
    (rangeObjectSize : Option Nat) : (link.respond now upload bytes rangeObjectSize).active = none := by
  unfold Link.respond
  split
  · exact decline_closed link closed idle upload
  · split
    · exact decline_closed (link.emit _) closed idle upload
    · rw [if_pos (by simp [Link.silent,closed])]
      exact finishUpload_closed link closed idle
end

/-! ### What an answer comes to -/

def Link.handed (link : Link) : List LinkEvent := link.events.filter LinkEvent.serves
/-- The response a link made ended with these events: the cancelled ones behind it are
    declined, and the next one waits for its bytes. -/
structure Ended (link link' : Link) (last : List LinkEvent) : Prop where
  sent : link'.handed = link.handed ++ last ++
    (link.queue.takeWhile (·.cancelled)).map (fun upload => .sendText (.none upload.id))
  next : link'.active = (link.queue.dropWhile (·.cancelled)).head?.map (⟨·,.awaitingBytes⟩)
  queue : link'.queue = (link.queue.dropWhile (·.cancelled)).tail
/-- A response is announced and its chunks are sent in order. It ended, or it waits for
    the channel with at least so many bytes behind it. -/
inductive Sends (link : Link) (upload : Upload) (bytes : List UInt8) (least : Nat) (link' : Link) : Prop
  | ends {chunks : List (List UInt8)} (cut : Chunks bytes bytes.length chunks)
      (ended : Ended link link' (upload.begun bytes chunks ++ [.sendText (.eof upload.id)]))
  | waits {chunks : List (List UInt8)} {sent deadline timer : Nat} (cut : Chunks bytes sent chunks)
    (passed : least ≤ sent)
      (left : sent < bytes.length) (held : link'.active = some ⟨upload,.draining bytes sent deadline timer⟩)
      (queue : link'.queue = link.queue) (handed : link'.handed = link.handed ++ upload.begun bytes chunks)
      (heard : link'.silent = false)
def Link.drains (link : Link) (lows : List (Nat × Nat)) : Link :=
  lows.foldl (fun link low => link.bufferedAmountLow low.1 low.2) link
/-- A response the link waited for is declined, or it is sent: every time the channel
    drains it goes on by a chunk, until all its bytes are sent and it ends. -/
def Answers (link : Link) (upload : Upload) (given : Option (List UInt8)) (link' : Link) : Prop :=
  match given with
  | none => Ended link link' [.sendText (.none upload.id)]
  | some bytes =>
    if upload.cancelled then Ended link link' [.sendText (.none upload.id)]
    else ∀ lows, Sends link upload bytes (lows.length * chunkBytes) (link'.drains lows) ∧
      (bytes.length ≤ lows.length * chunkBytes → ∃ chunks, Chunks bytes bytes.length chunks ∧
        Ended link (link'.drains lows) (upload.begun bytes chunks ++ [.sendText (.eof upload.id)]))

section
variable {link : Link}

theorem sendText_handed {message : Message} (part : (LinkEvent.sendText message).serves = true)
    (heard : link.silent = false) :
    (link.sendText message).handed = link.handed ++ [.sendText message] ∧ (link.sendText message).silent = false := by
  simp [Link.sendText,heard,Link.handed,Link.emit,part]
  exact heard
theorem startNextFrom_ended (queue : List Upload) : ∀ link : Link, link.silent = false → link.active = none →
    (startNextFrom queue link).handed = link.handed ++
      (queue.takeWhile (·.cancelled)).map (fun upload => .sendText (.none upload.id)) ∧
    (startNextFrom queue link).active = (queue.dropWhile (·.cancelled)).head?.map (⟨·,.awaitingBytes⟩) ∧
    (startNextFrom queue link).queue = (queue.dropWhile (·.cancelled)).tail := by
  induction queue with
  | nil => exact fun link _ idle => ⟨(List.append_nil _).symm,idle,rfl⟩
  | cons upload rest ih =>
    intro link heard idle
    unfold startNextFrom
    rw [if_neg (by rw [idle]; exact Bool.false_ne_true)]
    by_cases cancelled : upload.cancelled = true
    · rw [if_pos cancelled]
      have told : (link.emit (.uploadCancelled 0)).handed = link.handed := by
        simp [Link.handed,Link.emit,LinkEvent.serves]
      obtain ⟨said,loud⟩ := @sendText_handed (link.emit (.uploadCancelled 0)) (.none upload.id) rfl heard
      obtain ⟨handed,next,left⟩ := ih ((link.emit (.uploadCancelled 0)).sendText (.none upload.id)).release loud
        ((sendText_active _ _).trans idle)
      rw [List.takeWhile_cons_of_pos cancelled,List.dropWhile_cons_of_pos cancelled]
      refine ⟨?_,next,left⟩
      rw [handed,show ((link.emit (.uploadCancelled 0)).sendText (.none upload.id)).release.handed =
        _ from said,told,List.append_assoc]
      rfl
    · have running : ¬ link.closed = true := fun closed => by simp [Link.silent,closed] at heard
      rw [if_neg cancelled,if_neg running,List.takeWhile_cons_of_neg cancelled,List.dropWhile_cons_of_neg cancelled]
      refine ⟨?_,rfl,rfl⟩
      simp [Link.handed,Link.emit,serveEvent_aside]
theorem finishUpload_ended (heard : made.silent = false) (idle : made.active = none) (queue : made.queue = link.queue)
    (handed : made.handed = link.handed ++ last) : Ended link made.finishUpload last := by
  obtain ⟨sent,next,left⟩ := startNextFrom_ended made.queue made.release heard idle
  rw [queue] at sent next left
  refine ⟨?_,by rw [← next,← queue]; rfl,by rw [← left,← queue]; rfl⟩
  rw [← handed,← show made.release.handed = made.handed from rfl,← sent,← queue]
  rfl
theorem decline_ended {made : Link} (heard : made.silent = false) (idle : made.active = none)
    (queue : made.queue = link.queue)
    (handed : made.handed = link.handed)
    (upload : Upload) : Ended link (made.decline upload) [.sendText (.none upload.id)] := by
  obtain ⟨said,loud⟩ := @sendText_handed made (.none upload.id) rfl heard
  refine finishUpload_ended loud ((sendText_active _ _).trans idle) ?_ (by rw [said,handed])
  rw [← queue]
  unfold Link.sendText
  split <;> rfl
theorem endChunks_ended (heard : made.silent = false) (idle : made.active = none) (queue : made.queue = link.queue)
    (handed : made.handed = link.handed ++ last) (now : Nat) (upload : Upload) {bytes : List UInt8} {sent : Nat}
    (whole : bytes.length ≤ sent) : Ended link (made.endChunks now upload bytes sent)
      (last ++ [.sendText (.eof upload.id)]) := by
  unfold Link.endChunks
  dsimp only
  rw [if_neg (by omega)]
  obtain ⟨said,loud⟩ := @sendText_handed { made with bytesOut := made.bytesOut + sent, lastServedAt := now }
    (.eof upload.id) rfl heard
  refine finishUpload_ended loud ((sendText_active _ _).trans idle) ?_ ?_
  · rw [← queue]
    unfold Link.sendText
    split <;> rfl
  · rw [said,← List.append_assoc,← handed]
    rfl
/-- A response goes on where it is, by a chunk at least when the channel drained. -/
theorem sendChunksFrom_sends (now : Nat) {upload : Upload} (wanted : upload.cancelled = false) (bytes : List UInt8)
    (least left : Nat) :
    ∀ (sent : Nat) (resumed : Bool) (chunks : List (List UInt8))
      (made : Link), made.silent = false → made.active = none →
    made.queue = link.queue → Chunks bytes sent chunks → made.handed = link.handed ++ upload.begun bytes chunks →
    sent ≤ bytes.length → bytes.length ≤ sent + left →
    (sent < bytes.length → least ≤ sent + (if resumed then chunkBytes else 0)) →
    Sends link upload bytes least (sendChunksFrom now upload bytes left sent resumed made) := by
  have ends : ∀ {sent : Nat} {chunks : List (List UInt8)} {made : Link}, made.silent = false → made.active = none →
      made.queue = link.queue → Chunks bytes sent chunks → made.handed = link.handed ++ upload.begun bytes chunks →
      sent ≤ bytes.length → bytes.length ≤ sent →
        Sends link upload bytes least (made.endChunks now upload bytes sent) := by
    intro sent chunks made heard idle queue cut handed within whole
    obtain rfl : sent = bytes.length := Nat.le_antisymm within whole
    exact .ends cut (endChunks_ended heard idle queue handed now upload le_rfl)
  induction left with
  | zero =>
    intro sent resumed chunks made heard idle queue cut handed within all far
    exact ends heard idle queue cut handed within all
  | succ left ih =>
    intro sent resumed chunks made heard idle queue cut handed within all far
    unfold sendChunksFrom
    split
    · rename_i whole
      exact ends heard idle queue cut handed within whole
    rename_i more
    have running : ¬ made.closed = true := fun closed => by simp [Link.silent,closed] at heard
    rw [if_neg running]
    split
    · rename_i full
      have fresh : resumed = false := by
        cases resumed with
        | false => rfl
        | true => simp at full
      rw [fresh] at far
      exact .waits cut (far (by omega)) (by omega) rfl queue handed heard
    · rw [if_neg (by rw [wanted]; exact Bool.false_ne_true)]
      have some : 0 < chunkBytes := by decide
      refine ih _ false _ (made.sendBinary bytes sent (min (sent + chunkBytes) bytes.length)) heard idle queue
        (cut.next (by omega)) ?_
        (by omega) (by omega) (fun short => ?_)
      · simp only [Link.handed,Link.sendBinary,List.filter_append,Upload.begun,List.map_append,List.map_cons,
          List.map_nil] at handed ⊢
        rw [handed]
        simp [LinkEvent.serves]
      · have reach := far (by omega)
        split at reach <;> simp only [Bool.false_eq_true,if_false] <;> omega
theorem Ended.drained (ended : Ended link made last) (now buffered : Nat) :
    Ended link (made.bufferedAmountLow now buffered) last := by
  have same : made.bufferedAmountLow now buffered = (made.atTime now).observeBuffered buffered := by
    have waiting : ∀ active, made.active = some active → active.stage = .awaitingBytes := by
      intro active held
      rw [ended.next] at held
      obtain ⟨upload,_,rfl⟩ := Option.map_eq_some_iff.mp held
      rfl
    unfold Link.bufferedAmountLow Link.resume
    split
    · rename_i held
      cases waiting _ held
    · rfl
  rw [same]
  exact ⟨ended.sent,ended.next,ended.queue⟩
theorem Sends.drained {upload : Upload} (wanted : upload.cancelled = false) {bytes : List UInt8} {least : Nat}
    (sends : Sends link upload bytes least made) (now buffered : Nat) :
    Sends link upload bytes (least + chunkBytes) (made.bufferedAmountLow now buffered) := by
  cases sends with
  | ends cut ended => exact .ends cut (ended.drained now buffered)
  | @waits chunks sent deadline timer cut passed left held queue handed heard =>
    have goes : made.bufferedAmountLow now buffered =
        ((made.atTime now).observeBuffered buffered).vacate.sendChunks now upload bytes sent true := by
      unfold Link.bufferedAmountLow Link.resume
      rw [show ((made.atTime now).observeBuffered buffered).active = _ from held]
    rw [goes]
    exact sendChunksFrom_sends now wanted bytes _ _ sent true chunks _ heard rfl queue cut handed (by omega) (by omega)
      (fun _ => by simp only [if_true]; omega)
theorem Sends.drains {upload : Upload} (wanted : upload.cancelled = false) {bytes : List UInt8}
    (lows : List (Nat × Nat)) :
    ∀ {least : Nat} {made : Link}, Sends link upload bytes least made →
      Sends link upload bytes (least + lows.length * chunkBytes) (made.drains lows) := by
  induction lows with
  | nil => intro least made sends; simpa [Link.drains] using sends
  | cons low rest ih =>
    intro least made sends
    have later := ih (sends.drained wanted low.1 low.2)
    rwa [Nat.add_assoc,Nat.add_comm chunkBytes,← Nat.succ_mul] at later
theorem serveResponseInner_answers {upload : Upload} (held : link.active = some ⟨upload,.awaitingBytes⟩)
    (heard : link.silent = false) (now : Nat) (bytes : Option (List UInt8)) (objectSize : Option Nat) :
    Answers link upload (bytes.bind (fun bytes => responseBytes link.config upload.range bytes objectSize))
      (link.serveResponseInner now bytes objectSize) := by
  have goes : link.serveResponseInner now bytes objectSize =
      (link.atTime now).vacate.respond now upload bytes objectSize := by
    unfold Link.serveResponseInner
    rw [held]
  have loud : (link.atTime now).vacate.silent = false := heard
  rw [goes]
  unfold Link.respond Answers
  rw [show (link.atTime now).vacate.config = link.config from rfl]
  cases bytes.bind (fun bytes => responseBytes link.config upload.range bytes objectSize) with
  | none => exact @decline_ended link (link.atTime now).vacate loud rfl rfl rfl upload
  | some given =>
    dsimp only
    cases cancelled : upload.cancelled with
    | true =>
      rw [if_pos rfl,if_pos rfl]
      have told : ((link.atTime now).vacate.emit (.uploadCancelled given.length)).handed = link.handed := by
        simp [Link.handed,Link.emit,LinkEvent.serves,Link.vacate,Link.atTime]
      exact @decline_ended link ((link.atTime now).vacate.emit (.uploadCancelled given.length)) loud rfl rfl told upload
    | false =>
      rw [if_neg Bool.false_ne_true,if_neg Bool.false_ne_true,loud,if_neg Bool.false_ne_true]
      obtain ⟨said,still⟩ := @sendText_handed _ (.metadata upload.id given.length upload.range) rfl loud
      have begins : Sends link upload given 0 (((link.atTime now).vacate.sendText
          (.metadata upload.id given.length upload.range)).sendChunks now upload given 0 false) := by
        refine sendChunksFrom_sends now cancelled given 0 _ 0 false [] _ still (sendText_active _ _) ?_
          ⟨rfl,fun chunk member => absurd member List.not_mem_nil⟩ said (Nat.zero_le _) (by omega)
            (fun _ => Nat.zero_le _)
        unfold Link.sendText
        split <;> rfl
      intro lows
      have sends := begins.drains cancelled lows
      rw [Nat.zero_add] at sends
      refine ⟨sends,fun enough => ?_⟩
      cases sends with
      | @ends chunks cut ended => exact ⟨chunks,cut,ended⟩
      | waits cut passed left => omega
end

/-! ### Runs -/

section
variable (parse : String → Option Json)

/-- The requests accepted along a run. -/
def Link.accepted (link : Link) : List Input → List Upload
  | [] => []
  | input :: rest => link.acceptsInput parse input ++ (link.step parse input).accepted rest
/-- What every run keeps of the responses. -/
structure Accounted (config : LinkConfig) (s : Server) : Prop where
  counted : Counted s
  calm : Calm s
  room : s.room = config.maxQueuedRequests

variable {config : LinkConfig} {link : Link} {accepted : List Upload}

theorem channel_server (isOpen : Bool) : (link.step parse (.setChannelOpen isOpen)).server (accepted ++
    link.acceptsInput parse (.setChannelOpen isOpen)) = { link.server accepted with channelOpen := isOpen } := by
  change (link.setChannelOpen isOpen).server (accepted ++ []) = _
  rw [List.append_nil]
  rfl
theorem step_accounted (kept : Accounted config (link.server accepted)) (input : Input) :
    Accounted config ((link.step parse input).server (accepted ++ link.acceptsInput parse input)) := by
  obtain ⟨counted,calm,room⟩ := kept
  by_cases channel : ∃ isOpen, input = .setChannelOpen isOpen
  · obtain ⟨isOpen,rfl⟩ := channel
    rw [channel_server parse]
    exact ⟨⟨counted.counted,counted.bounded⟩,⟨calm.settled,calm.stopped⟩,room⟩
  · have serves := step_serves link parse (fun isOpen same => channel ⟨isOpen,same⟩) counted calm
    exact ⟨serves.counted counted,serves.calm,serves.turns.room.trans room⟩
theorem run_accounted (inputs : List Input) : ∀ (link : Link)
    (accepted : List Upload), Accounted config (link.server accepted) →
    Accounted config ((link.run parse inputs).server (accepted ++ link.accepted parse inputs)) := by
  induction inputs with
  | nil =>
    intro link accepted kept
    rw [Link.accepted,List.append_nil]
    exact kept
  | cons input rest ih =>
    intro link accepted kept
    rw [Link.accepted,← List.append_assoc]
    exact ih _ _ (step_accounted parse kept input)
theorem run_ordered (inputs : List Input) : ∀ (link : Link)
    (accepted : List Upload), Accounted config (link.server accepted) →
    (∀ isOpen, .setChannelOpen isOpen ∈ inputs → isOpen = true) → link.channelOpen = true →
    (link.closed = false → ∃ answers begun, Ordered (link.server accepted) answers begun) →
      (link.run parse inputs).closed = false →
    ∃ answers begun, Ordered ((link.run parse inputs).server (accepted ++ link.accepted parse inputs))
      answers begun := by
  induction inputs with
  | nil =>
    intro link accepted kept steady heard ordered running
    rw [Link.accepted,List.append_nil]
    exact ordered running
  | cons input rest ih =>
    intro link accepted kept steady heard ordered running
    rw [Link.accepted,← List.append_assoc]
    have later : ∀ isOpen, .setChannelOpen isOpen ∈ rest → isOpen = true :=
      fun isOpen member => steady isOpen (List.mem_cons_of_mem _ member)
    by_cases channel : ∃ isOpen, input = .setChannelOpen isOpen
    · obtain ⟨isOpen,rfl⟩ := channel
      have opens : isOpen = true := steady isOpen List.mem_cons_self
      subst opens
      refine ih _ _ (step_accounted parse kept _) later rfl (fun opens => ?_) running
      obtain ⟨answers,begun,same⟩ := ordered opens
      rw [channel_server parse]
      exact ⟨answers,begun,same.accepted,same.sent,same.complete,same.made⟩
    · have serves := step_serves link parse (fun isOpen same => channel ⟨isOpen,same⟩) kept.counted kept.calm
      refine ih _ _ (step_accounted parse kept _) later (serves.turns.channelOpen.trans heard) (fun opens => ?_) running
      have before : link.closed = false := by
        cases closed : link.closed with
        | false => rfl
        | true => exact absurd (serves.turns.closed closed) (by
          rw [show ((link.step parse input).server _).closed = false from opens]; exact Bool.false_ne_true)
      obtain ⟨answers,begun,same⟩ := ordered before
      exact serves.turns.ordered heard opens same
end

theorem closed_idle {config : LinkConfig} {link : Link} {accepted : List Upload}
    (kept : Accounted config (link.server accepted))
    (closed : link.closed = true) (now : Nat) (bytes : Option (List UInt8)) (rangeObjectSize : Option Nat) :
    (link.serveResponseInner now bytes rangeObjectSize).inFlight = 0 := by
  have serves := serveResponseInner_serves link now bytes rangeObjectSize kept.counted kept.calm
  have counted : (link.serveResponseInner now bytes rangeObjectSize).inFlight = _ :=
    (serves.counted kept.counted).counted
  have idle : (link.serveResponseInner now bytes rangeObjectSize).active = none := by
    unfold Link.serveResponseInner
    split
    · exact respond_closed (link.atTime now).vacate closed rfl now _ bytes rangeObjectSize
    · rename_i other
      cases held : link.active with
      | none => exact held
      | some active =>
        obtain ⟨upload,stage⟩ := active
        cases stage with
        | awaitingBytes => exact absurd held (other upload)
        | draining =>
          have stopped := kept.calm.stopped closed _ (congrArg (Option.map Active.serving) held)
          cases stopped
  have none : ((link.serveResponseInner now bytes rangeObjectSize).server accepted).active = none :=
    congrArg (Option.map Active.serving) idle
  rw [none,serves.calm.settled none] at counted
  exact counted

theorem new_accounted (config : LinkConfig) (opened : Nat) : Accounted config ((Link.new config opened).server []) :=
  ⟨⟨rfl,Nat.zero_le _⟩,⟨fun _ => rfl,fun closed => (nomatch closed)⟩,rfl⟩
theorem active_count (link : Link) (accepted : List Upload) :
    (link.server accepted).active.toList.length = link.active.toList.length := by
  change (link.active.map Active.serving).toList.length = _
  cases link.active <;> rfl

/-- The responses of a link, in every run, and what each answer of the shell comes to. -/
theorem uploads_accounted (parse : String → Option Json) (config : LinkConfig) (opened : Nat) (inputs : List Input) :
    let link := (Link.new config opened).run parse inputs
    let accepted := (Link.new config opened).accepted parse inputs
    (link.inFlight = link.queue.length + link.active.toList.length ∧ link.inFlight ≤ config.maxQueuedRequests) ∧
    (link.active = none → link.queue = []) ∧
    (∀ input, (∀ isOpen, input ≠ .setChannelOpen isOpen) →
      Turns (link.server accepted) ((link.step parse input).server (accepted ++ link.acceptsInput parse input))) ∧
    ((∀ isOpen, .setChannelOpen isOpen ∈ inputs → isOpen = true) → link.closed = false →
      ∃ answers begun, Ordered (link.server accepted) answers begun) ∧
    (∀ upload, link.active = some ⟨upload,.awaitingBytes⟩ → link.closed = false → link.channelOpen = true →
      (∀ now bytes, Answers link upload (bytes.bind (fun bytes => responseBytes link.config upload.range bytes none))
        (link.serveResponse now bytes)) ∧
      ∀ now objectSize bytes, Answers link upload (responseBytes link.config upload.range bytes (some objectSize))
        (link.serveRangeResponse now objectSize bytes)) ∧
    (link.closed = true → (link.active = none → link.inFlight = 0) ∧
      (∀ now bytes, (link.serveResponse now bytes).inFlight = 0) ∧
      ∀ now objectSize bytes, (link.serveRangeResponse now objectSize bytes).inFlight = 0) := by
  have start := new_accounted config opened
  have first : Ordered ((Link.new config opened).server []) [] [] :=
    ⟨rfl,rfl,fun answer member => (nomatch member),.idle⟩
  have kept := run_accounted parse inputs _ _ start
  have order := run_ordered parse inputs _ _ start
  rw [List.nil_append] at kept order
  intro link accepted
  have active := active_count link accepted
  have settled : link.active = none → link.queue = [] :=
    fun idle => kept.calm.settled (congrArg (Option.map Active.serving) idle)
  refine ⟨⟨?_,?_⟩,settled,?_,?_,?_,?_⟩
  · rw [← active]
    exact kept.counted.counted
  · rw [← kept.room]
    exact kept.counted.bounded
  · exact fun input fixed => (step_serves link parse fixed kept.counted kept.calm).turns
  · exact fun steady running => order steady rfl (fun _ => ⟨[],[],first⟩) running
  · intro upload held running heard
    have loud : link.silent = false := by simp [Link.silent,running,heard]
    exact ⟨fun now bytes => serveResponseInner_answers held loud now bytes none,
      fun now objectSize bytes => serveResponseInner_answers held loud now (some bytes) (some objectSize)⟩
  · intro closed
    refine ⟨fun idle => ?_,fun now bytes => closed_idle kept closed now bytes none,
      fun now objectSize bytes => closed_idle kept closed now (some bytes) (some objectSize)⟩
    have count := kept.counted.counted
    rw [active,idle] at count
    change link.inFlight = link.queue.length + 0 at count
    rw [settled idle] at count
    exact count

end RelaySwarm.Links
