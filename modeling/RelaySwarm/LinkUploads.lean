import RelaySwarm.LinkSilence
import Mathlib.Logic.Relation

/-!
A link as it serves: the responses that wait, the one that is being sent, and what was
handed to the channel for them. Requesting leaves this view alone. Whatever else an
input does to it is a sequence of turns (`Turn`), and each turn that ends a response
lowers the count of those in flight by one.
-/
namespace RelaySwarm.Links
open Script Pieces

/-- An event that is part of a response. -/
def LinkEvent.serves : LinkEvent → Bool
  | .sendText (.metadata ..) => true
  | .sendText (.eof _) => true
  | .sendText (.none _) => true
  | .sendBinary _ => true
  | _ => false
/-- The response that is made: it waits for its bytes, or so many of them are sent. -/
structure Serving where
  upload : Upload
  progress : Option (List UInt8 × Nat)
/-- What a link knows as it serves, and the requests it accepted. -/
structure Server where
  accepted : List Upload
  closed : Bool
  channelOpen : Bool
  room : Nat
  queue : List Upload
  active : Option Serving
  inFlight : Nat
  sent : List LinkEvent
variable {s s' : Server}
def Active.serving : Active → Serving
  | ⟨upload,.awaitingBytes⟩ => ⟨upload,none⟩
  | ⟨upload,.draining bytes sent _ _⟩ => ⟨upload,some (bytes,sent)⟩
def Link.server (link : Link) (accepted : List Upload) : Server where
  accepted := accepted
  closed := link.closed
  channelOpen := link.channelOpen
  room := link.config.maxQueuedRequests
  queue := link.queue
  active := link.active.map Active.serving
  inFlight := link.inFlight
  sent := link.events.filter LinkEvent.serves
def Server.silent (s : Server) : Bool := s.closed || !s.channelOpen
def Server.speaks (s : Server) (message : Message) : List LinkEvent := if s.silent then [] else [.sendText message]

/-- The response that is made ends with these events, or the next one does. -/
def Server.ends (s : Server) (last : List LinkEvent) : Server :=
  { s with active := none, inFlight := s.inFlight - 1, sent := s.sent ++ last }
inductive Turn (s : Server) : Server → Prop
  /-- One more is asked for. -/
  | accepts (upload : Upload) (running : s.closed = false) (room : s.inFlight < s.room)
    (fresh : upload.cancelled = false) :
      Turn s { s with accepted := s.accepted ++ [upload], queue := s.queue ++ [upload], inFlight := s.inFlight + 1 }
  /-- The next one waits for its bytes. -/
  | starts {upload : Upload} {rest : List Upload} (idle : s.active = none) (next : s.queue = upload :: rest)
      (wanted : upload.cancelled = false) (running : s.closed = false) :
      Turn s { s with queue := rest, active := some ⟨upload,none⟩ }
  /-- The next one was cancelled. -/
  | skips {upload : Upload} {rest : List Upload} (idle : s.active = none) (next : s.queue = upload :: rest)
      (cancelled : upload.cancelled = true) (counted : 0 < s.inFlight) :
      Turn s { s.ends (s.speaks (.none upload.id)) with queue := rest }
  /-- The next one is not served any more. -/
  | drops {upload : Upload} {rest : List Upload} (idle : s.active = none) (next : s.queue = upload :: rest)
      (closed : s.closed = true) (counted : 0 < s.inFlight) : Turn s { s.ends [] with queue := rest }
  | declines {upload : Upload} (held : s.active = some ⟨upload,none⟩) (counted : 0 < s.inFlight) :
      Turn s (s.ends (s.speaks (.none upload.id)))
  /-- A response cannot be announced. -/
  | fails {upload : Upload} (held : s.active = some ⟨upload,none⟩) (silent : s.silent = true)
    (counted : 0 < s.inFlight) :
      Turn s (s.ends [])
  | announces {upload : Upload} (bytes : List UInt8) (held : s.active = some ⟨upload,none⟩) (heard : s.silent = false) :
      Turn s { s with active := some ⟨upload,some (bytes,0)⟩
                      sent := s.sent ++ [.sendText (.metadata upload.id bytes.length upload.range)] }
  | sends {upload : Upload} {bytes : List UInt8} {sent : Nat} (held : s.active = some ⟨upload,some (bytes,sent)⟩)
      (running : s.closed = false) (left : sent < bytes.length) :
      Turn s { s with active := some ⟨upload,some (bytes,min (sent + chunkBytes) bytes.length)⟩
                      sent :=
                        s.sent ++ [.sendBinary ((bytes.drop sent).take (min (sent + chunkBytes) bytes.length - sent))] }
  | completes {upload : Upload} {bytes : List UInt8} {sent : Nat} (held : s.active = some ⟨upload,some (bytes,sent)⟩)
      (done : upload.cancelled = true ∨ bytes.length ≤ sent) (counted : 0 < s.inFlight) :
      Turn s (s.ends (s.speaks (.eof upload.id)))
  /-- A response stops with the link. -/
  | stops {upload : Upload} {progress : List UInt8 × Nat} (held : s.active = some ⟨upload,some progress⟩)
      (closed : s.closed = true) (counted : 0 < s.inFlight) : Turn s (s.ends [])
  | cancels (id : Int) :
      Turn s { s with queue := s.queue.map (·.cancel id)
                      active := s.active.map (fun active => { active with upload := active.upload.cancel id }) }
  | closes : Turn s { s with closed := true }
def Turns : Server → Server → Prop := Relation.ReflTransGen Turn

theorem Turns.refl (s : Server) : Turns s s := Relation.ReflTransGen.refl
theorem Turns.of_eq (same : s' = s) : Turns s s' := same ▸ Turns.refl s
theorem Turn.turns (turn : Turn s s') : Turns s s' := Relation.ReflTransGen.single turn
theorem Turns.trans {a b c : Server} (first : Turns a b) (second : Turns b c) : Turns a c :=
  Relation.ReflTransGen.trans first second

/-! ### What turns keep -/

/-- Every response in flight waits in the queue or is the one being made. -/
structure Counted (s : Server) : Prop where
  counted : s.inFlight = s.queue.length + s.active.toList.length
  bounded : s.inFlight ≤ s.room
theorem Turn.counted (turn : Turn s s') (counted : Counted s) : Counted s' := by
  obtain ⟨count,bound⟩ := counted
  have less : s.inFlight - 1 ≤ s.room := by omega
  cases turn with
  | accepts upload running room fresh =>
    refine ⟨?_,room⟩
    simp only [List.length_append,List.length_singleton]
    omega
  | starts idle next wanted running =>
    refine ⟨?_,bound⟩
    simp only [count,idle,next,List.length_cons,Option.toList_none,Option.toList_some,List.length_nil]
  | skips idle next cancelled some =>
    rw [idle,next,List.length_cons] at count
    exact ⟨congrArg (· - 1) count,less⟩
  | drops idle next closed some =>
    rw [idle,next,List.length_cons] at count
    exact ⟨congrArg (· - 1) count,less⟩
  | declines held some =>
    rw [held] at count
    exact ⟨congrArg (· - 1) count,less⟩
  | fails held silent some =>
    rw [held] at count
    exact ⟨congrArg (· - 1) count,less⟩
  | announces bytes held heard =>
    rw [held] at count
    exact ⟨count,bound⟩
  | sends held running left =>
    rw [held] at count
    exact ⟨count,bound⟩
  | completes held done some =>
    rw [held] at count
    exact ⟨congrArg (· - 1) count,less⟩
  | stops held closed some =>
    rw [held] at count
    exact ⟨congrArg (· - 1) count,less⟩
  | cancels id =>
    refine ⟨?_,bound⟩
    cases held : s.active with
    | none => simpa [held] using count
    | some active => simpa [held] using count
  | closes => exact ⟨count,bound⟩
theorem Turns.counted (turns : Turns s s') (counted : Counted s) : Counted s' := by
  induction turns with
  | refl => exact counted
  | tail _ turn ih => exact turn.counted ih
theorem Turn.closed (turn : Turn s s') (closed : s.closed = true) : s'.closed = true := by
  cases turn <;> first | exact closed | rfl
theorem Turn.channelOpen (turn : Turn s s') : s'.channelOpen = s.channelOpen := by
  cases turn <;> rfl
theorem Turns.closed (turns : Turns s s') (closed : s.closed = true) : s'.closed = true := by
  induction turns with
  | refl => exact closed
  | tail _ turn ih => exact turn.closed ih
theorem Turns.channelOpen (turns : Turns s s') : s'.channelOpen = s.channelOpen := by
  induction turns with
  | refl => rfl
  | tail _ turn ih => exact turn.channelOpen.trans ih

/-! ### Responses in their order -/

def Upload.wanted (upload : Upload) : Upload := { upload with cancelled := false }
inductive Answer where
  | declined (upload : Upload)
  | served (upload : Upload) (bytes : List UInt8) (chunks : List (List UInt8))
def Answer.upload : Answer → Upload
  | .declined upload => upload
  | .served upload .. => upload
/-- What is sent of a response before its end. -/
def Upload.begun (upload : Upload) (bytes : List UInt8) (chunks : List (List UInt8)) : List LinkEvent :=
  .sendText (.metadata upload.id bytes.length upload.range) :: chunks.map .sendBinary
def Answer.events : Answer → List LinkEvent
  | .declined upload => [.sendText (.none upload.id)]
  | .served upload bytes chunks => upload.begun bytes chunks ++ [.sendText (.eof upload.id)]
/-- Chunks of the right size that make up the first bytes of a response. -/
structure Chunks (bytes : List UInt8) (sent : Nat) (chunks : List (List UInt8)) : Prop where
  whole : chunks.flatten = bytes.take sent
  sized : ∀ chunk ∈ chunks, 0 < chunk.length ∧ chunk.length ≤ chunkBytes
/-- A response has all its bytes, unless it was cancelled. -/
def Answer.Complete : Answer → Prop
  | .declined _ => True
  | .served upload bytes chunks =>
    ∃ sent, Chunks bytes sent chunks ∧ (upload.cancelled = false → chunks.flatten = bytes)
/-- What was sent of the response that is made. -/
inductive Partial : Option Serving → List LinkEvent → Prop
  | idle : Partial none []
  | waits (upload : Upload) : Partial (some ⟨upload,none⟩) []
  | sends {upload : Upload} {bytes : List UInt8} {sent : Nat} {chunks : List (List UInt8)}
    (cut : Chunks bytes sent chunks) :
      Partial (some ⟨upload,some (bytes,sent)⟩) (upload.begun bytes chunks)
/-- The accepted requests are answered in their order, one after another. -/
structure Ordered (s : Server) (answers : List Answer) (begun : List LinkEvent) : Prop where
  accepted : s.accepted = answers.map (·.upload.wanted) ++ (s.active.toList.map (·.upload) ++ s.queue).map Upload.wanted
  sent : s.sent = answers.flatMap Answer.events ++ begun
  complete : ∀ answer ∈ answers, answer.Complete
  made : Partial s.active begun

theorem cancel_wanted (upload : Upload) (id : Int) : (upload.cancel id).wanted = upload.wanted := by
  unfold Upload.cancel
  split <;> rfl
theorem cancel_begun (upload : Upload) (id : Int) (bytes : List UInt8) (chunks : List (List UInt8)) :
    (upload.cancel id).begun bytes chunks = upload.begun bytes chunks := by
  unfold Upload.cancel
  split <;> rfl
theorem Partial.cancel {active : Option Serving} {begun : List LinkEvent} (made : Partial active begun) (id : Int) :
    Partial (active.map (fun active => { active with upload := active.upload.cancel id })) begun := by
  cases made with
  | idle => exact .idle
  | waits upload => exact .waits _
  | @sends upload bytes sent chunks cut =>
    rw [← cancel_begun upload id]
    exact .sends cut
theorem Chunks.next {bytes : List UInt8} {sent : Nat} {chunks : List (List UInt8)} (cut : Chunks bytes sent chunks)
    (left : sent < bytes.length) : Chunks bytes (min (sent + chunkBytes) bytes.length)
      (chunks ++ [(bytes.drop sent).take (min (sent + chunkBytes) bytes.length - sent)]) := by
  have some : 0 < chunkBytes := by decide
  constructor
  · have split : min (sent + chunkBytes) bytes.length = sent + (min (sent + chunkBytes) bytes.length - sent) := by omega
    rw [List.flatten_append,cut.whole,List.flatten_cons,List.flatten_nil,List.append_nil]
    conv_rhs => rw [split,List.take_add]
  · intro chunk member
    rcases List.mem_append.mp member with before | last
    · exact cut.sized chunk before
    · rw [List.mem_singleton.mp last,List.length_take,List.length_drop]
      omega

section
variable {s s' : Server} {answers : List Answer} {begun : List LinkEvent}

theorem Ordered.ended (ordered : Ordered s answers begun) {upload : Upload} {progress : Option (List UInt8 × Nat)}
    (held : s.active = some ⟨upload,progress⟩) (answer : Answer) (of : answer.upload = upload)
    (complete : answer.Complete)
    {last : List LinkEvent}
    (events : begun ++ last = answer.events) : Ordered (s.ends last) (answers ++ [answer]) [] := by
  obtain ⟨accepted,sent,whole,_⟩ := ordered
  refine ⟨?_,?_,?_,.idle⟩
  · simp only [Server.ends,accepted,held,of,List.map_append,List.map_cons,List.map_nil,Option.toList_some,
      Option.toList_none,List.nil_append,List.append_assoc]
  · simp only [Server.ends,sent,List.flatMap_append,List.flatMap_cons,List.flatMap_nil,List.append_nil,
      List.append_assoc,events]
  · intro other member
    rcases List.mem_append.mp member with before | new
    · exact whole other before
    · rw [List.mem_singleton.mp new]
      exact complete
theorem Turn.ordered (turn : Turn s s') (heard : s.channelOpen = true) (running : s'.closed = false)
    (ordered : Ordered s answers begun) : ∃ answers begun, Ordered s' answers begun := by
  have isOpen : s.closed = false := by
    cases closed : s.closed with
    | false => rfl
    | true => exact absurd (turn.closed closed) (by rw [running]; exact Bool.false_ne_true)
  have loud : s.silent = false := by simp [Server.silent,isOpen,heard]
  have spoken : ∀ message, s.speaks message = [.sendText message] := by
    intro message
    unfold Server.speaks
    rw [loud]
    rfl
  obtain ⟨accepted,sent,whole,made⟩ := ordered
  cases turn with
  | accepts upload _ room fresh =>
    have same : upload.wanted = upload := by
      unfold Upload.wanted
      rw [← fresh]
    refine ⟨answers,begun,?_,sent,whole,made⟩
    simp only [accepted,List.map_append,List.map_cons,List.map_nil,same,List.append_assoc]
  | starts idle next wanted _ =>
    rw [idle] at made
    cases made
    refine ⟨answers,[],?_,sent,whole,.waits _⟩
    simp only [accepted,idle,next,Option.toList_none,Option.toList_some,List.map_cons,List.map_nil,List.nil_append,
      List.cons_append]
  | @skips upload rest idle next cancelled some =>
    rw [idle] at made
    cases made
    refine ⟨answers ++ [.declined upload],[],?_,?_,?_,.idle⟩
    · simp only [Server.ends,accepted,idle,next,Option.toList_none,List.map_append,List.map_cons,List.map_nil,
        List.nil_append,List.append_assoc,Answer.upload,List.cons_append]
    · simp only [Server.ends,sent,spoken,List.flatMap_append,List.flatMap_cons,List.flatMap_nil,List.append_nil,
        Answer.events]
    · intro answer member
      rcases List.mem_append.mp member with before | new
      · exact whole answer before
      · rw [List.mem_singleton.mp new]
        trivial
  | drops idle next closed some => exact absurd closed (by rw [isOpen]; exact Bool.false_ne_true)
  | @declines upload held some =>
    have nothing : begun = [] := by
      rw [held] at made
      cases made
      rfl
    rw [spoken]
    exact ⟨_,_,Ordered.ended ⟨accepted,sent,whole,made⟩ held (.declined upload) rfl trivial (by rw [nothing]; rfl)⟩
  | fails held silent some => exact absurd silent (by rw [loud]; exact Bool.false_ne_true)
  | @announces upload bytes held _ =>
    rw [held] at made
    cases made
    refine ⟨answers,upload.begun bytes [],?_,?_,whole,.sends ⟨rfl,fun chunk member => (nomatch member)⟩⟩
    · simp only [accepted,held,Option.toList_some,List.map_append,List.map_cons,List.map_nil]
    · simp only [sent,List.append_nil]
      rfl
  | @sends upload bytes done held _ left =>
    rw [held] at made
    cases made with
    | @sends _ _ _ chunks cut =>
      refine ⟨answers,_,?_,?_,whole,.sends (cut.next left)⟩
      · simp only [accepted,held,Option.toList_some,List.map_append,List.map_cons,List.map_nil]
      · simp only [sent,Upload.begun,List.map_append,List.map_cons,List.map_nil,List.append_assoc,List.cons_append]
  | @completes upload bytes done held exceeds some =>
    have made' := made
    rw [held] at made'
    cases made' with
    | @sends _ _ _ chunks cut =>
      rw [spoken]
      refine ⟨_,_,Ordered.ended ⟨accepted,sent,whole,made⟩ held (.served upload bytes chunks) rfl ⟨done,cut,?_⟩ rfl⟩
      intro wanted
      rcases exceeds with cancelled | all
      · rw [wanted] at cancelled
        cases cancelled
      · rw [cut.whole,List.take_of_length_le all]
  | stops held closed some => exact absurd closed (by rw [isOpen]; exact Bool.false_ne_true)
  | cancels id =>
    refine ⟨answers,begun,?_,sent,whole,made.cancel id⟩
    have same : (Upload.wanted ∘ fun upload => upload.cancel id) = Upload.wanted := by
      funext upload
      exact cancel_wanted upload id
    cases held : s.active with
    | none =>
      simp only [accepted,held,Option.map_none,Option.toList_none,List.map_nil,List.nil_append,List.map_map,same]
    | some active =>
      simp only [accepted,held,Option.map_some,Option.toList_some,List.map_cons,List.map_nil,List.cons_append,
        List.nil_append,List.map_map,same,cancel_wanted]
  | closes => cases running
theorem Turns.ordered (turns : Turns s s') (heard : s.channelOpen = true) (running : s'.closed = false)
    (ordered : Ordered s answers begun) : ∃ answers begun, Ordered s' answers begun := by
  induction turns with
  | refl => exact ⟨answers,begun,ordered⟩
  | @tail middle last first turn ih =>
    have isOpen : middle.closed = false := by
      cases closed : middle.closed with
      | false => rfl
      | true => exact absurd (turn.closed closed) (by rw [running]; exact Bool.false_ne_true)
    obtain ⟨before,half,ordered'⟩ := ih isOpen
    exact turn.ordered ((Turns.channelOpen first).trans heard) running ordered'
end

/-! ### What each call does -/

/-- While nothing is made, nothing waits; and a closed link sends no response any more. -/
structure Calm (s : Server) : Prop where
  settled : s.active = none → s.queue = []
  stopped : s.closed = true → ∀ serving, s.active = some serving → serving.progress = none
structure Serves (s s' : Server) : Prop where
  turns : Turns s s'
  calm : Calm s'

section
variable {s : Server}

theorem Serves.after {s' s'' : Server} (first : Turns s s') (later : Serves s' s'') : Serves s s'' :=
  ⟨first.trans later.turns,later.calm⟩
theorem Serves.same (calm : Calm s) (same : s' = s) : Serves s s' := ⟨.of_eq same,same ▸ calm⟩
end

section
variable (link : Link) (accepted : List Upload)

@[simp] theorem emit_active (event : LinkEvent) : (link.emit event).active = link.active := rfl
@[simp] theorem sendText_active (message : Message) : (link.sendText message).active = link.active := by
  unfold Link.sendText
  split <;> rfl
@[simp] theorem finish_active (bytes : Option (List UInt8)) (outcome : Option Outcome) (reportNow : Bool) :
    (link.finish bytes outcome reportNow).active = link.active := by
  unfold Link.finish
  split <;> rfl
theorem emit_server {event : LinkEvent} (aside : event.serves = false) :
    (link.emit event).server accepted = link.server accepted := by
  simp [Link.server,Link.emit,aside]
theorem sendText_server {message : Message} (aside : (LinkEvent.sendText message).serves = false) :
    (link.sendText message).server accepted = link.server accepted := by
  unfold Link.sendText
  split
  · rfl
  · exact emit_server link accepted aside
theorem sendText_sent {message : Message} (part : (LinkEvent.sendText message).serves = true) :
    (link.sendText message).server accepted = { link.server accepted with
      sent := (link.server accepted).sent ++ (link.server accepted).speaks message } := by
  have same : (link.server accepted).silent = link.silent := rfl
  unfold Link.sendText Server.speaks
  rw [same]
  split
  · simp
  · simp [Link.server,Link.emit,part]
theorem serveEvent_aside (upload : Upload) : (serveEvent upload).serves = false := by
  unfold serveEvent
  cases upload.range <;> rfl
theorem settle_serves (pending : Pending) (bytes : Option (List UInt8)) (outcome : Outcome) (reportNow : Bool) :
    (link.settle pending bytes outcome reportNow).filter LinkEvent.serves = [] := by
  have quiet := settle_quiet link pending bytes outcome reportNow
  refine List.filter_eq_nil_iff.mpr (fun event member => ?_)
  have sends := quiet event member
  cases event <;> first | exact Bool.false_ne_true | cases sends
theorem finish_server (bytes : Option (List UInt8)) (outcome : Option Outcome) (reportNow : Bool) :
    (link.finish bytes outcome reportNow).server accepted = link.server accepted := by
  unfold Link.finish
  cases link.pending with
  | none => rfl
  | some pending => simp [Link.server,settle_serves]
theorem sendText_release {message : Message} (part : (LinkEvent.sendText message).serves = true)
    (idle : link.active = none) :
    (link.sendText message).release.server accepted =
      (link.server accepted).ends ((link.server accepted).speaks message) := by
  have said := sendText_sent link accepted part
  have released : (link.sendText message).release.server accepted =
      { (link.sendText message).server accepted with
        inFlight := ((link.sendText message).server accepted).inFlight - 1 } := rfl
  rw [released,said]
  unfold Server.ends Link.server
  dsimp only
  rw [idle,Option.map_none]
end

/-! ### Responses are made -/

def Server.waiting (s : Server) (queue : List Upload) : Server := { s with queue := queue }
/-- The server while a response is made that the link itself does not name. -/
def Server.making (s : Server) (serving : Serving) : Server := { s with active := some serving }
theorem making_counted {serving : Serving} (counted : Counted (s.making serving)) : 0 < s.inFlight := by
  have count : s.inFlight = s.queue.length + 1 := counted.counted
  omega

section
variable {link : Link} {accepted : List Upload}

theorem startNextFrom_serves (queue : List Upload) : ∀ link : Link, Counted ((link.server accepted).waiting queue) →
    (link.closed = true → ∀ serving, (link.server accepted).active = some serving → serving.progress = none) →
    Serves ((link.server accepted).waiting queue) ((startNextFrom queue link).server accepted) := by
  induction queue with
  | nil => exact fun link counted stopped => .same ⟨fun _ => rfl,stopped⟩ rfl
  | cons upload rest ih =>
    intro link counted stopped
    unfold startNextFrom
    by_cases busy : link.active.isSome = true
    · rw [if_pos busy]
      refine .same ⟨fun idle => ?_,stopped⟩ rfl
      have none : link.active = none := Option.map_eq_none_iff.mp idle
      rw [none] at busy
      cases busy
    · rw [if_neg busy]
      have idle : link.active = none := by simpa using busy
      have idle' : ((link.server accepted).waiting (upload :: rest)).active = none := by
        simp [Link.server,Server.waiting,idle]
      have flies : 0 < ((link.server accepted).waiting (upload :: rest)).inFlight := by
        have count := counted.counted
        change _ = rest.length + 1 + _ at count
        omega
      by_cases cancelled : upload.cancelled = true
      · rw [if_pos cancelled]
        have part : (LinkEvent.sendText (.none upload.id)).serves = true := rfl
        have said := sendText_release (link.emit (.uploadCancelled 0)) accepted part idle
        rw [emit_server link accepted rfl] at said
        have turn : Turn ((link.server accepted).waiting (upload :: rest))
            ((((link.emit (.uploadCancelled 0)).sendText (.none upload.id)).release.server accepted).waiting rest) := by
          rw [said]
          exact .skips idle' rfl cancelled flies
        refine Serves.after turn.turns (ih _ (turn.counted counted) (fun _ serving active => ?_))
        rw [said] at active
        cases active
      · rw [if_neg cancelled]
        by_cases closed : link.closed = true
        · rw [if_pos closed]
          have turn :
              Turn ((link.server accepted).waiting (upload :: rest)) ((link.release.server accepted).waiting rest) := by
            have same : (link.release.server accepted).waiting rest =
                { ((link.server accepted).waiting (upload :: rest)).ends [] with queue := rest } := by
              simp [Link.server,Server.waiting,Server.ends,Link.release,idle]
            rw [same]
            exact .drops idle' rfl closed flies
          exact Serves.after turn.turns (ih _ (turn.counted counted) stopped)
        · rw [if_neg closed]
          have running : link.closed = false := by simpa using closed
          have turn : Turn ((link.server accepted).waiting (upload :: rest))
              (({ link.emit (serveEvent upload) with
                queue := rest, active := some ⟨upload,.awaitingBytes⟩ } : Link).server accepted) := by
            have same : ({ link.emit (serveEvent upload) with
                queue := rest, active := some ⟨upload,.awaitingBytes⟩ } : Link).server accepted =
                { (link.server accepted).waiting (upload :: rest) with
                  queue := rest, active := some ⟨upload,none⟩ } := by
              simp [Link.server,Server.waiting,Link.emit,serveEvent_aside,Active.serving]
            rw [same]
            exact .starts idle' rfl (by simpa using cancelled) running
          exact ⟨turn.turns,⟨fun none => (by cases none),fun shut => absurd shut closed⟩⟩
theorem startNext_serves (counted : Counted (link.server accepted))
    (stopped : link.closed = true → ∀ serving, (link.server accepted).active = some serving → serving.progress = none) :
    Serves (link.server accepted) (link.startNext.server accepted) :=
      startNextFrom_serves link.queue link counted stopped
theorem finishUpload_serves (counted : Counted s) (idle : link.active = none)
    (turn : Turn s (link.release.server accepted)) : Serves s (link.finishUpload.server accepted) := by
  have none : (link.release.server accepted).active = none := congrArg (Option.map Active.serving) idle
  refine Serves.after turn.turns (startNext_serves (turn.counted counted) (fun _ serving active => ?_))
  rw [none] at active
  cases active
theorem decline_serves {upload : Upload} (idle : link.active = none)
    (counted : Counted ((link.server accepted).making ⟨upload,none⟩)) :
    Serves ((link.server accepted).making ⟨upload,none⟩) ((link.decline upload).server accepted) := by
  refine finishUpload_serves counted ((sendText_active link _).trans idle) ?_
  rw [sendText_release link accepted rfl idle]
  exact .declines rfl (making_counted counted)
theorem endChunks_serves {upload : Upload} {bytes : List UInt8} {sent : Nat} (now : Nat) (idle : link.active = none)
    (done : upload.cancelled = true ∨ bytes.length ≤ sent)
    (counted : Counted ((link.server accepted).making ⟨upload,some (bytes,sent)⟩)) :
    Serves ((link.server accepted).making ⟨upload,some (bytes,sent)⟩)
      ((link.endChunks now upload bytes sent).server accepted) := by
  unfold Link.endChunks
  dsimp only
  generalize told : (if sent < bytes.length
    then ({ link with bytesOut := link.bytesOut + sent, lastServedAt := now } : Link).emit
    (.uploadCancelled (bytes.length - sent))
      else { link with bytesOut := link.bytesOut + sent, lastServedAt := now }) = next
  have same : next.server accepted = link.server accepted ∧ next.active = none := by
    rw [← told]
    split
    · exact ⟨emit_server { link with bytesOut := link.bytesOut + sent, lastServedAt := now } accepted rfl,idle⟩
    · exact ⟨rfl,idle⟩
  refine finishUpload_serves counted ((sendText_active next _).trans same.2) ?_
  rw [sendText_release next accepted rfl same.2,same.1]
  exact .completes rfl done (making_counted counted)
theorem sendChunksFrom_serves (now : Nat) (upload : Upload) (bytes : List UInt8) (left : Nat) :
    ∀ (sent : Nat) (resumed : Bool) (link : Link),
    link.active = none → bytes.length ≤ sent + left →
      Counted ((link.server accepted).making ⟨upload,some (bytes,sent)⟩) →
    Serves ((link.server accepted).making ⟨upload,some (bytes,sent)⟩)
      ((sendChunksFrom now upload bytes left sent resumed link).server accepted) := by
  induction left with
  | zero => exact fun sent _ link idle all counted => endChunks_serves now idle (.inr all) counted
  | succ left ih =>
    intro sent resumed link idle all counted
    unfold sendChunksFrom
    split
    · rename_i done
      exact endChunks_serves now idle (.inr done) counted
    · rename_i more
      split
      · rename_i closed
        refine finishUpload_serves counted idle ?_
        have same : link.release.server accepted =
            ((link.server accepted).making ⟨upload,some (bytes,sent)⟩).ends [] := by
          simp [Link.server,Server.making,Server.ends,Link.release,idle]
        rw [same]
        exact .stops rfl closed (making_counted counted)
      · rename_i running
        split
        · refine .same ⟨fun none => (by cases none),fun closed => absurd closed running⟩ ?_
          simp [Link.server,Server.making,Active.serving]
        · split
          · rename_i cancelled
            exact endChunks_serves now idle (.inl cancelled) counted
          · have turn : Turn ((link.server accepted).making ⟨upload,some (bytes,sent)⟩)
                (((link.sendBinary bytes sent (min (sent + chunkBytes) bytes.length)).server accepted).making
                  ⟨upload,some (bytes,min (sent + chunkBytes) bytes.length)⟩) := by
              have same : ((link.sendBinary bytes sent (min (sent + chunkBytes) bytes.length)).server accepted).making
                  ⟨upload,some (bytes,min (sent + chunkBytes) bytes.length)⟩ =
                  { (link.server accepted).making ⟨upload,some (bytes,sent)⟩ with
                    active := some ⟨upload,some (bytes,min (sent + chunkBytes) bytes.length)⟩
                    sent := ((link.server accepted).making ⟨upload,some (bytes,sent)⟩).sent ++
                      [.sendBinary ((bytes.drop sent).take (min (sent + chunkBytes) bytes.length - sent))] } := by
                simp [Link.server,Server.making,Link.sendBinary,LinkEvent.serves]
              rw [same]
              exact .sends rfl (Bool.eq_false_iff.mpr running) (by omega)
            have filled : 0 < chunkBytes := by decide
            exact Serves.after turn.turns (ih _ false _ idle (by omega) (turn.counted counted))
theorem respond_serves (now : Nat) {upload : Upload} (bytes : Option (List UInt8)) (rangeObjectSize : Option Nat)
    (idle : link.active = none) (counted : Counted ((link.server accepted).making ⟨upload,none⟩)) :
    Serves ((link.server accepted).making ⟨upload,none⟩)
      ((link.respond now upload bytes rangeObjectSize).server accepted) := by
  unfold Link.respond
  split
  · exact decline_serves idle counted
  · rename_i bytes _
    split
    · have same : (link.emit (.uploadCancelled bytes.length)).server accepted = link.server accepted :=
        emit_server link accepted rfl
      have counted' : Counted (((link.emit (.uploadCancelled bytes.length)).server accepted).making ⟨upload,none⟩) := by
        rw [same]
        exact counted
      have declined :=
        decline_serves (show (link.emit (.uploadCancelled bytes.length)).active = none from idle) counted'
      rw [same] at declined
      exact declined
    · split
      · rename_i silent
        refine finishUpload_serves counted idle ?_
        have same : link.release.server accepted = ((link.server accepted).making ⟨upload,none⟩).ends [] := by
          simp [Link.server,Server.making,Server.ends,Link.release,idle]
        rw [same]
        exact .fails rfl silent (making_counted counted)
      · rename_i heard
        have loud : (link.server accepted).silent = false := Bool.eq_false_iff.mpr heard
        have said := sendText_sent link accepted
            (show (LinkEvent.sendText (.metadata upload.id bytes.length upload.range)).serves = true from rfl)
        have turn : Turn ((link.server accepted).making ⟨upload,none⟩)
            (((link.sendText (.metadata upload.id bytes.length upload.range)).server accepted).making ⟨upload,
              some (bytes,0)⟩) := by
          rw [said,Server.speaks,loud]
          exact .announces bytes rfl loud
        have idle' := (sendText_active link (.metadata upload.id bytes.length upload.range)).trans idle
        exact Serves.after turn.turns (sendChunksFrom_serves now upload bytes _ 0 false _ idle' (by omega)
          (turn.counted counted))
end

/-! ### Inputs -/

section
variable (link : Link) {accepted : List Upload}

theorem making_eq {serving : Serving} {active : Active} (held : link.active = some active)
    (same : active.serving = serving) :
    (link.vacate.server accepted).making serving = link.server accepted := by
  simp [Link.server,Link.vacate,Server.making,held,same]
theorem serveResponseInner_serves (now : Nat) (bytes : Option (List UInt8)) (rangeObjectSize : Option Nat)
    (counted : Counted (link.server accepted)) (calm : Calm (link.server accepted)) :
    Serves (link.server accepted) ((link.serveResponseInner now bytes rangeObjectSize).server accepted) := by
  unfold Link.serveResponseInner
  split
  · rename_i upload held
    have same : ((link.atTime now).vacate.server accepted).making ⟨upload,none⟩ = link.server accepted :=
      making_eq link held rfl
    have counted' : Counted (((link.atTime now).vacate.server accepted).making ⟨upload,none⟩) := by
      rw [same]
      exact counted
    have made :=
      respond_serves now bytes rangeObjectSize (show (link.atTime now).vacate.active = none from rfl) counted'
    rwa [same] at made
  · exact .same calm rfl
theorem resume_serves (now : Nat) (counted : Counted (link.server accepted)) (calm : Calm (link.server accepted)) :
    Serves (link.server accepted) ((link.resume now).server accepted) := by
  unfold Link.resume
  split
  · rename_i upload bytes sent deadline timer held
    have same : (link.vacate.server accepted).making ⟨upload,some (bytes,sent)⟩ = link.server accepted :=
      making_eq link held rfl
    have made := sendChunksFrom_serves now upload bytes (bytes.length - sent) sent true link.vacate rfl (by omega)
        (by rw [same]; exact counted)
    rwa [same] at made
  · exact .same calm rfl
theorem stopUpload_serves (closed : link.closed = true) (counted : Counted (link.server accepted))
    (settled : (link.server accepted).active = none → (link.server accepted).queue = []) :
    Serves (link.server accepted) (link.stopUpload.server accepted) := by
  unfold Link.stopUpload Link.uploadWaiting
  cases held : link.active with
  | none =>
    refine .same ⟨settled,fun _ serving active => ?_⟩ rfl
    have none : (link.server accepted).active = none := congrArg (Option.map Active.serving) held
    rw [none] at active
    cases active
  | some active =>
    obtain ⟨upload,stage⟩ := active
    have flies : 0 < link.inFlight := by
      have count : link.inFlight = _ := counted.counted
      simp only [Link.server,held,Option.map_some,Option.toList_some,List.length_singleton] at count
      omega
    cases stage with
    | awaitingBytes =>
      refine .same ⟨settled,fun _ serving active => ?_⟩ rfl
      have waits : (link.server accepted).active = some ⟨upload,none⟩ := congrArg (Option.map Active.serving) held
      rw [waits] at active
      cases active
      rfl
    | draining bytes sent deadline timer =>
      have active : (link.server accepted).active = some ⟨upload,some (bytes,sent)⟩ :=
        congrArg (Option.map Active.serving) held
      have turn : Turn (link.server accepted) (link.vacate.release.server accepted) := by
        have same : link.vacate.release.server accepted = (link.server accepted).ends [] := by
          simp [Link.server,Link.vacate,Link.release,Server.ends]
        rw [same]
        exact .stops active closed flies
      exact finishUpload_serves counted rfl turn
theorem close_serves (reason : CloseReason) (counted : Counted (link.server accepted))
    (calm : Calm (link.server accepted)) :
    Serves (link.server accepted) ((link.close reason).server accepted) := by
  unfold Link.close
  split
  · exact .same calm rfl
  · dsimp only
    generalize told : ((link.shut reason).finish none
      (some (if reason = .sendError then .sendError else .closed)) true).emit
      (.closed reason) = next
    have same : next.server accepted = { link.server accepted with closed := true } := by
      rw [← told,emit_server _ accepted rfl,finish_server]
      rfl
    have shut : next.closed = true := congrArg Server.closed same
    have turn : Turn (link.server accepted) (next.server accepted) := same ▸ .closes
    have settled : (next.server accepted).active = none → (next.server accepted).queue = [] := by
      rw [same]
      exact calm.settled
    exact Serves.after turn.turns (stopUpload_serves next shut (turn.counted counted) settled)
theorem close_idle_server (accepted : List Upload) (reason : CloseReason) (idle : link.active = none) :
    (link.close reason).server accepted = { link.server accepted with closed := true } ∧
      (link.close reason).active = none := by
  unfold Link.close
  split
  · rename_i closed
    exact ⟨by simp [Link.server,closed],idle⟩
  · dsimp only
    generalize told : ((link.shut reason).finish none
      (some (if reason = .sendError then .sendError else .closed)) true).emit
      (.closed reason) = next
    have same : next.server accepted = { link.server accepted with closed := true } := by
      rw [← told,emit_server _ accepted rfl,finish_server]
      rfl
    have none : next.active = none := by
      rw [← told,emit_active,finish_active]
      exact idle
    have stays : next.stopUpload = next := by
      unfold Link.stopUpload Link.uploadWaiting
      rw [none]
      rfl
    rw [stays]
    exact ⟨same,none⟩
theorem uploadTimer_serves (now : Nat) (counted : Counted (link.server accepted)) (waits : link.uploadWaiting = true) :
    Serves (link.server accepted) ((link.uploadTimer now).server accepted) := by
  unfold Link.uploadTimer
  unfold Link.uploadWaiting at waits
  split at waits
  · rename_i upload bytes sent deadline timer held
    have active : (link.server accepted).active = some ⟨upload,some (bytes,sent)⟩ :=
      congrArg (Option.map Active.serving) held
    obtain ⟨same,idle⟩ := close_idle_server (link.atTime now).vacate accepted .uploadDrainTimeout rfl
    have shuts : Turn (link.server accepted) { link.server accepted with closed := true } := .closes
    have flies : 0 < link.inFlight := by
      have count : link.inFlight = _ := counted.counted
      rw [active,Option.toList_some,List.length_singleton] at count
      omega
    have turn : Turn { link.server accepted with closed := true }
        (((link.atTime now).vacate.close .uploadDrainTimeout).release.server accepted) := by
      have ended : ((link.atTime now).vacate.close .uploadDrainTimeout).release.server accepted =
          ({ link.server accepted with closed := true } : Server).ends [] := by
        have released : ((link.atTime now).vacate.close .uploadDrainTimeout).release.server accepted =
            { ((link.atTime now).vacate.close .uploadDrainTimeout).server accepted with
              inFlight := (((link.atTime now).vacate.close .uploadDrainTimeout).server accepted).inFlight - 1 } := rfl
        rw [released,same]
        simp [Link.server,Link.vacate,Link.atTime,Server.ends]
      rw [ended]
      exact .stops active rfl flies
    exact Serves.after shuts.turns (finishUpload_serves (shuts.counted counted) idle turn)
  · cases waits
theorem giveUp_serves (reason : CloseReason) (pending : Pending) (outcome : Outcome)
    (counted : Counted (link.server accepted))
    (calm : Calm (link.server accepted)) : Serves (link.server accepted)
      ((link.giveUp reason pending outcome).server accepted) := by
  have finished := finish_server link accepted none (some outcome) false
  have closed :
      Serves (link.server accepted) (((link.finish none (some outcome) false).close reason).server accepted) := by
    rw [← finished] at counted calm ⊢
    exact close_serves _ reason counted calm
  unfold Link.giveUp
  dsimp only
  split
  · exact closed
  · rw [emit_server _ accepted rfl]
    exact closed
theorem abandon_serves (now : Nat) (reason : CloseReason) (abandoned : Bool) (counted : Counted (link.server accepted))
    (calm : Calm (link.server accepted)) : Serves (link.server accepted)
      ((link.abandon now reason abandoned).server accepted) := by
  unfold Link.abandon
  split
  · split
    · exact close_serves link reason counted calm
    · exact .same calm rfl
  · split
    · exact giveUp_serves link reason _ _ counted calm
    · refine .same calm ?_
      unfold Link.drain
      dsimp only
      rw [sendText_server _ accepted rfl,emit_server _ accepted rfl,emit_server _ accepted rfl]
      rfl
theorem startRequest_server (now : Nat) (key : String) (timeoutMs : Nat) (expectedSize : Option Nat)
    (range : Option PieceRange) :
    (link.startRequest now key timeoutMs expectedSize range).2.server accepted = link.server accepted := by
  unfold Link.startRequest
  split
  · exact (emit_server _ accepted rfl).trans (emit_server _ accepted rfl)
  · dsimp only
    split
    · exact finish_server _ accepted _ _ _
    · exact sendText_server _ accepted rfl
theorem abort_serves (now id : Nat) (abandoned : Bool) (counted : Counted (link.server accepted))
    (calm : Calm (link.server accepted)) :
    Serves (link.server accepted) ((link.abort now id abandoned).server accepted) := by
  unfold Link.abort
  split
  · split
    · exact abandon_serves (link.atTime now) now _ abandoned counted calm
    · exact .same calm rfl
  · exact .same calm rfl
theorem requestTimer_serves (now : Nat) (counted : Counted (link.server accepted))
    (calm : Calm (link.server accepted)) :
    Serves (link.server accepted) ((link.requestTimer now).server accepted) := by
  unfold Link.requestTimer
  split
  · split
    · exact close_serves (link.atTime now) _ counted calm
    · exact abandon_serves (link.atTime now) now _ false counted calm
  · exact .same calm rfl
theorem uploadDue_waits {now : Nat} {due : Nat × Nat} (found : link.uploadDue now = some due) :
    link.uploadWaiting = true := by
  unfold Link.uploadDue at found
  unfold Link.uploadWaiting
  split at found
  · rfl
  · cases found
theorem fire_serves (now : Nat) (counted : Counted (link.server accepted)) (calm : Calm (link.server accepted)) :
    Serves (link.server accepted) ((link.fire now).server accepted) := by
  unfold Link.fire
  split
  · rename_i upload _ due
    split
    · exact requestTimer_serves link _ counted calm
    · exact uploadTimer_serves link _ counted (uploadDue_waits link due)
  · exact requestTimer_serves link _ counted calm
  · rename_i upload _ due
    exact uploadTimer_serves link _ counted (uploadDue_waits link due)
  · exact .same calm rfl
theorem Serves.counted (serves : Serves s s') (counted : Counted s) : Counted s' := serves.turns.counted counted
theorem tick_serves (now : Nat) (counted : Counted (link.server accepted)) (calm : Calm (link.server accepted)) :
    Serves (link.server accepted) ((link.tick now).server accepted) := by
  have first := fire_serves link now counted calm
  exact Serves.after first.turns (fire_serves _ now (first.counted counted) first.calm)

/-! ### Texts -/

/-- The request a `want` makes, if it is accepted. -/
def Link.wanted (link : Link) (message : Fields) : List Upload :=
  match (field message "id").bind safeInteger,(field message "k").filter isHex64 |>.bind Json.asString with
  | some id,some key =>
    match parseRange (field message "p") with
    | none => []
    | some range => if link.config.maxQueuedRequests ≤ link.inFlight then [] else [⟨id,key,false,range⟩]
  | _,_ => []
theorem onWant_serves (message : Fields) (running : link.closed = false) (counted : Counted (link.server accepted))
    (calm : Calm (link.server accepted)) :
    Serves (link.server accepted) ((link.onWant message).server (accepted ++ link.wanted message)) := by
  have nothing : Serves (link.server accepted) (link.server (accepted ++ [])) := by
    rw [List.append_nil]
    exact .same calm rfl
  have closes : ∀ reason, Serves (link.server accepted) ((link.close reason).server (accepted ++ [])) := by
    intro reason
    rw [List.append_nil]
    exact close_serves link reason counted calm
  unfold Link.onWant Link.wanted
  generalize (field message "id").bind safeInteger = id
  generalize ((field message "k").filter isHex64).bind Json.asString = key
  generalize parseRange (field message "p") = range
  cases id with
  | none => exact nothing
  | some id =>
    cases key with
    | none => exact nothing
    | some key =>
      cases range with
      | none => exact closes _
      | some range =>
        dsimp only
        by_cases full : link.config.maxQueuedRequests ≤ link.inFlight
        · rw [if_pos full,if_pos full]
          exact closes _
        · rw [if_neg full,if_neg full]
          have turn : Turn (link.server accepted)
              ((link.enqueue ⟨id,key,false,range⟩).server (accepted ++ [⟨id,key,false,range⟩])) :=
            .accepts ⟨id,key,false,range⟩ running (not_le.mp full) rfl
          exact Serves.after turn.turns (startNext_serves (turn.counted counted) calm.stopped)
theorem onCancel_serves (now : Nat) (message : Fields) (counted : Counted (link.server accepted))
    (calm : Calm (link.server accepted)) :
    Serves (link.server accepted) ((link.onCancel now message).server accepted) := by
  unfold Link.onCancel
  split
  · exact .same calm rfl
  · rename_i id _
    have turn : Turn (link.server accepted) ((link.cancelUploads id).server accepted) := by
      have same : (link.cancelUploads id).server accepted = { link.server accepted with
          queue := (link.server accepted).queue.map (·.cancel id)
          active :=
            (link.server accepted).active.map (fun active => { active with upload := active.upload.cancel id }) } := by
        unfold Link.cancelUploads Link.server
        cases held : link.active with
        | none => rfl
        | some active =>
          obtain ⟨upload,stage⟩ := active
          cases stage <;> rfl
      rw [same]
      exact .cancels id
    have counted' := turn.counted counted
    have calm' : Calm ((link.cancelUploads id).server accepted) := by
      refine ⟨fun idle => ?_,fun closed serving active => ?_⟩
      · have none : link.active = none := Option.map_eq_none_iff.mp (Option.map_eq_none_iff.mp idle)
        have empty : link.queue = [] := calm.settled (congrArg (Option.map Active.serving) none)
        change link.queue.map (·.cancel id) = []
        rw [empty]
        rfl
      · cases held : link.active with
        | none =>
          have none : ((link.cancelUploads id).server accepted).active = none := by
            simp [Link.server,Link.cancelUploads,held]
          rw [none] at active
          cases active
        | some before =>
          have progress := calm.stopped closed before.serving (congrArg (Option.map Active.serving) held)
          have after : ((link.cancelUploads id).server accepted).active =
              some ({ before with upload := before.upload.cancel id } : Active).serving := by
            simp [Link.server,Link.cancelUploads,held]
          rw [after] at active
          cases active
          obtain ⟨upload,stage⟩ := before
          cases stage with
          | awaitingBytes => rfl
          | draining => cases progress
    split
    · split
      · exact Serves.after turn.turns (resume_serves _ now counted' calm')
      · exact ⟨turn.turns,calm'⟩
    · exact ⟨turn.turns,calm'⟩
theorem namesPending_serves {message : Fields} {handle : Pending → Link} (counted : Counted (link.server accepted))
    (calm : Calm (link.server accepted))
    (handled : ∀ pending, Serves (link.server accepted) ((handle pending).server accepted)) :
    Serves (link.server accepted) ((link.namesPending message handle).server accepted) := by
  unfold Link.namesPending
  split
  · exact .same calm rfl
  · split
    · exact handled _
    · split
      · exact close_serves link _ counted calm
      · exact .same calm rfl
theorem onMeta_serves (message : Fields) (counted : Counted (link.server accepted))
    (calm : Calm (link.server accepted)) :
    Serves (link.server accepted) ((link.onMeta message).server accepted) := by
  refine namesPending_serves link counted calm fun pending => ?_
  split
  · exact close_serves link _ counted calm
  · split
    · exact close_serves link _ counted calm
    · split
      · split
        · exact .same calm rfl
        · exact close_serves link _ counted calm
      · exact close_serves link _ counted calm
theorem onEof_serves (message : Fields) (counted : Counted (link.server accepted))
    (calm : Calm (link.server accepted)) :
    Serves (link.server accepted) ((link.onEof message).server accepted) := by
  refine namesPending_serves link counted calm fun pending => ?_
  split
  · exact .same calm (finish_server link accepted _ _ _)
  · split
    · exact close_serves link _ counted calm
    · split
      · exact .same calm (finish_server link accepted _ _ _)
      · exact .same calm (finish_server link accepted _ _ _)
theorem onNone_serves (message : Fields) (counted : Counted (link.server accepted))
    (calm : Calm (link.server accepted)) :
    Serves (link.server accepted) ((link.onNone message).server accepted) := by
  refine namesPending_serves link counted calm fun pending => ?_
  split
  · exact close_serves link _ counted calm
  · exact .same calm (finish_server link accepted _ _ _)
theorem onContribution_server (now : Nat) (message : Fields) :
    (link.onContribution now message).server accepted = link.server accepted := by
  unfold Link.onContribution
  split
  · exact emit_server _ accepted rfl
  · rfl
theorem onFetching_server (now : Nat) (message : Fields) :
    (link.onFetching now message).server accepted = link.server accepted := by
  unfold Link.onFetching
  split
  · split
    · exact emit_server _ accepted rfl
    · rfl
  · rfl
theorem onHave_server (message : Fields) : (link.onHave message).server accepted = link.server accepted := by
  unfold Link.onHave
  dsimp only
  split
  · rfl
  · exact emit_server _ accepted rfl
theorem handleBinary_serves (now : Nat) (chunk : List UInt8) (counted : Counted (link.server accepted))
    (calm : Calm (link.server accepted)) : Serves (link.server accepted)
      ((link.handleBinary now chunk).server accepted) := by
  unfold Link.handleBinary
  split
  · exact .same calm rfl
  · split
    · exact .same calm rfl
    · split
      · exact close_serves (link.atTime now) _ counted calm
      · split
        · exact close_serves (link.atTime now) _ counted calm
        · rename_i pending _ _ _ _ _
          dsimp only
          split
          · exact close_serves ((link.atTime now).receive pending chunk) _ counted calm
          · split
            · exact .same calm rfl
            · exact .same calm (emit_server _ accepted rfl)

variable (parse : String → Option Json)

theorem handleMessage_serves (now : Nat) (message : Fields) (running : link.closed = false)
    (counted : Counted (link.server accepted))
    (calm : Calm (link.server accepted)) : Serves (link.server accepted) ((link.handleMessage now message).server
      (accepted ++ if (field message "t").bind Json.asString = some "want" then link.wanted message else [])) := by
  unfold Link.handleMessage
  by_cases wants : (field message "t").bind Json.asString = some "want"
  · rw [if_pos wants,wants]
    exact onWant_serves link message running counted calm
  · rw [if_neg wants,List.append_nil]
    split
    · exact .same calm (onContribution_server link now message)
    · exact .same calm (onFetching_server link now message)
    · exact .same calm (onHave_server link message)
    · rename_i want
      exact absurd want wants
    · exact onCancel_serves link now message counted calm
    · exact onMeta_serves link message counted calm
    · exact onEof_serves link message counted calm
    · exact onNone_serves link message counted calm
    · exact .same calm rfl

variable (parse : String → Option Json)

/-- The request a text makes, if it is accepted. -/
def Link.accepts (link : Link) (text : String) : List Upload :=
  if link.closed then []
  else if maxControlUnits < units text then []
  else match parse text with
    | some (.object message) => if (field message "t").bind Json.asString = some "want" then link.wanted message else []
    | _ => []
theorem handleText_serves (now : Nat) (text : String) (counted : Counted (link.server accepted))
    (calm : Calm (link.server accepted)) :
    Serves (link.server accepted) ((link.handleText parse now text).server (accepted ++ link.accepts parse text)) := by
  unfold Link.handleText Link.accepts
  by_cases closed : link.closed = true
  · rw [if_pos closed,if_pos closed,List.append_nil]
    exact .same calm rfl
  · rw [if_neg closed,if_neg closed]
    by_cases long : maxControlUnits < units text
    · rw [if_pos long,if_pos long,List.append_nil]
      exact close_serves (link.atTime now) _ counted calm
    · rw [if_neg long,if_neg long]
      generalize parse text = value
      cases value with
      | none =>
        dsimp only
        rw [List.append_nil]
        exact close_serves (link.atTime now) _ counted calm
      | some value =>
        cases value with
        | object message =>
          exact handleMessage_serves (link.atTime now) now message (Bool.eq_false_iff.mpr closed) counted calm
        | null | bool | number | string | array =>
          dsimp only
          rw [List.append_nil]
          exact .same calm rfl
/-- The request an input makes, if it is accepted. -/
def Link.acceptsInput (link : Link) : Input → List Upload
  | .text _ text => link.accepts parse text
  | _ => []
theorem step_serves {input : Input} (fixed : ∀ isOpen, input ≠ .setChannelOpen isOpen)
    (counted : Counted (link.server accepted)) (calm : Calm (link.server accepted)) :
    Serves (link.server accepted) ((link.step parse input).server (accepted ++ link.acceptsInput parse input)) := by
  have none : ∀ next : Link, Serves (link.server accepted) (next.server accepted) →
      Serves (link.server accepted) (next.server (accepted ++ [])) := by
    intro next serves
    rwa [List.append_nil]
  cases input with
  | sendHave keys => exact none _ (.same calm (sendText_server link accepted rfl))
  | sendHaveChange add del =>
    refine none _ (.same calm ?_)
    unfold Link.step Link.sendHaveChange
    dsimp only
    split
    · rfl
    · exact sendText_server link accepted rfl
  | sendContribution serving rendition => exact none _ (.same calm (sendText_server link accepted rfl))
  | sendFetching key leaseMs => exact none _ (.same calm (sendText_server link accepted rfl))
  | request now key timeoutMs expectedSize =>
    exact none _ (.same calm (startRequest_server link now key timeoutMs expectedSize _))
  | requestRange now key timeoutMs range objectSize =>
    refine none _ (.same calm ?_)
    unfold Link.step Link.requestRange
    dsimp only
    split
    · rfl
    · exact startRequest_server link now key timeoutMs _ _
  | abort now id abandoned => exact none _ (abort_serves link now id abandoned counted calm)
  | close reason => exact none _ (close_serves link _ counted calm)
  | tick now => exact none _ (tick_serves link now counted calm)
  | text now text => exact handleText_serves link parse now text counted calm
  | binary now chunk => exact none _ (handleBinary_serves link now chunk counted calm)
  | serveResponse now bytes => exact none _ (serveResponseInner_serves link now bytes _ counted calm)
  | serveRangeResponse now objectSize bytes => exact none _ (serveResponseInner_serves link now _ _ counted calm)
  | bufferedAmountLow now buffered =>
    exact none _ (resume_serves ((link.atTime now).observeBuffered buffered) now counted calm)
  | observeBuffered buffered => exact none _ (.same calm rfl)
  | setChannelOpen isOpen => exact absurd rfl (fixed isOpen)
  | setReliable reliable => exact none _ (.same calm rfl)
end

end RelaySwarm.Links
