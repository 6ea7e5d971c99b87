import RelaySwarm.MultiHolder
import RelaySwarm.TransferCredit
import Mathlib.Data.List.Induction

/-!
What the sources of a load are credited with. The replies queue up between the page's
count of verified bytes and the core's (`Chained`), each raising it by at most the bytes
of the answer it is for, so that what is credited is what was taken (`Sound`). A load on
the page is one whose worker answers at once: a call is queued, run and taken.
-/
namespace RelaySwarm.MultiHolder
open Transfers Pieces Planning
open Transfer (Between Newborn Begins Fitted Credited)
universe u
variable {κ : Type u} [DecidableEq κ]

/-! ### What is kept -/

variable {n : Nat} {event : Transfers.Event}
omit [DecidableEq κ] in
/-- The bytes of the answer that is taken. -/
def Taking.carried : Taking κ → Nat
  | .peer _ _ bytes => bytes
  | .origin bytes => bytes
  | _ => 0
/-- Those that came on a connection. -/
def Taking.brings (connection : κ) : Taking κ → Nat
  | .peer request _ bytes => if connection = request.connection then bytes else 0
  | _ => 0

/-- Replies that take the count of verified bytes from one value to another. -/
inductive Chained (size : Nat) : Nat → List (Reply κ) → Nat → Prop
  | nil (v : Nat) : Chained size v [] v
  | cons {v w : Nat} {reply : Reply κ} {rest : List (Reply κ)} (grows : v ≤ reply.state.verified)
      (within : reply.state.verified ≤ v + reply.taking.carried)
      (handed : ∀ object, .deliver object ∈ reply.commands → reply.state.verified = size)
      (later : Chained size reply.state.verified rest w) : Chained size v (reply :: rest) w

omit [DecidableEq κ] in
theorem Chained.le {size v w : Nat} {replies : List (Reply κ)} (chained : Chained size v replies w) : v ≤ w := by
  induction chained with
  | nil => exact le_rfl
  | cons grows _ _ _ ih => exact grows.trans ih
omit [DecidableEq κ] in
theorem Chained.snoc {size v w : Nat} {replies : List (Reply κ)} (chained : Chained size v replies w) {reply : Reply κ}
    (grows : w ≤ reply.state.verified) (within : reply.state.verified ≤ w + reply.taking.carried)
    (handed : ∀ object, .deliver object ∈ reply.commands → reply.state.verified = size) :
    Chained size v (replies ++ [reply]) reply.state.verified := by
  induction chained with
  | nil v => exact .cons grows within handed (.nil _)
  | cons grows' within' handed' _ ih => exact .cons grows' within' handed' (ih grows within)

/-- The calls that wait are ones the transfer can take in their order. -/
def Serves (n : Nat) (t : Transfer) : List Transfers.Event → Prop
  | [] => Between n t
  | event :: rest => (Between n t ∧ event.starts = false ∨ Newborn n t ∧ Begins t event) ∧ ∀ e ∈ rest, e.starts = false

theorem Serves.snoc {t : Transfer} {events : List Transfers.Event} (serves : Serves n t events)
    (later : event.starts = false) : Serves n t (events ++ [event]) := by
  cases events with
  | nil => exact ⟨.inl ⟨serves,later⟩,by simp⟩
  | cons first rest =>
    refine ⟨serves.1,fun e member => ?_⟩
    rcases List.mem_append.mp member with early | last
    · exact serves.2 e early
    · rw [List.mem_singleton.mp last]
      exact later

namespace State
variable (plan : Plan κ)

/-- What was received on a connection for a reply not yet taken. -/
def pending (s : State κ) (connection : κ) : Nat :=
  (s.calls.map (·.taking.brings connection)).sum + (s.replies.map (·.taking.brings connection)).sum
omit [DecidableEq κ] in
/-- The bytes verified in the replies taken so far, by the last of them. -/
def bytesHandled (s : State κ) : Nat := (s.handled.getLast?.map (·.state.verified)).getD 0

/-- The books of a load that is not over. -/
structure Running (s : State κ) : Prop where
  fitted : Fitted s.transfer
  size : s.transfer.size = plan.size
  silent : s.transfer.commands = []
  carries : ∀ call ∈ s.calls, call.event.carried = call.taking.carried
  chained : Chained plan.size s.verified s.replies s.transfer.verifiedBytes
  sum : s.contributions.total + s.originShare = s.verified
  last : s.bytesHandled = s.verified
  handed : ∀ frame ∈ s.frames, ∀ object, .deliver object ∈ frame.commands → s.verified = plan.size
/-- What was handed over is what was credited. -/
structure Handed (s : State κ) (delivery : Delivery κ) : Prop where
  closed : s.finished = true
  entries : delivery.contributions = s.contributions.entries
  peers : s.contributions.total = delivery.peerBytes
  whole : delivery.peerBytes + s.originShare = plan.size
structure Sound (s : State κ) : Prop where
  backed : ∀ connection, s.contributions.amount connection + s.pending connection ≤ s.received.amount connection
  running : s.finished = false → Running plan s
  halted : s.finished = true → s.frames = []
  ended : ∀ delivery, s.result = some delivery → Handed plan s delivery

variable {plan}

theorem Sound.other {s : State κ} (sound : Sound plan s) (asked : List (Request κ)) (requests : IndexMap Nat Nat)
    (controllers : Nat) (aborted : List Nat) (originRequests : List PieceRange) (tickTimer : Option Nat)
    (banned : List Nat) (peerBytes originBytes : Nat) (unusedBytes : Int) :
    Sound plan { s with
      asked, requests, controllers, aborted, originRequests, tickTimer, banned, peerBytes, originBytes, unusedBytes } :=
  ⟨sound.backed,fun runs => { sound.running runs with },sound.halted,fun d given => { sound.ended d given with }⟩
theorem Sound.finish {s : State κ} (sound : Sound plan s) {result : Option (Delivery κ)}
    (good : s.finished = false → ∀ d, result = some d → d.contributions = s.contributions.entries ∧
      s.contributions.total = d.peerBytes ∧
        d.peerBytes + s.originShare = plan.size) : Sound plan (s.finish result) := by
  unfold State.finish
  by_cases closed : s.finished = true
  · rw [if_pos closed]
    exact sound
  · rw [if_neg closed]
    refine ⟨sound.backed,by simp,by simp,fun d given => ?_⟩
    obtain ⟨entries,peers,whole⟩ := good (by simpa using closed) d given
    exact ⟨rfl,entries,peers,whole⟩
theorem Sound.quit {s : State κ} (sound : Sound plan s) : Sound plan (s.finish none) :=
  sound.finish (fun _ _ given => nomatch given)
theorem Sound.apply {s : State κ} (sound : Sound plan s) {commands : List Command}
    (handed : s.finished = false → ∀ object, .deliver object ∈ commands → s.verified = plan.size) (next : Option Nat) :
    Sound plan (s.apply commands next) := by
  unfold State.apply
  by_cases closed : s.finished = true
  · rw [if_pos closed]
    exact sound
  · rw [if_neg closed]
    have runs : s.finished = false := by simpa using closed
    refine ⟨sound.backed,fun _ => { sound.running runs with handed := ?_ },fun ended => absurd ended closed,
      fun d given => { sound.ended d given with }⟩
    intro frame member object told
    rcases List.mem_cons.mp member with rfl | old
    · exact handed runs object told
    · exact (sound.running runs).handed frame old object told

/-! ### Taking a reply -/

/-- A reply is taken: the count is what it says, and what is credited for it is no more
    than its answer brought. -/
theorem Sound.taken {s : State κ} {reply : Reply κ} (sound : Sound plan { s with replies := reply :: s.replies })
    (runs : s.finished = false) (contributions : IndexMap κ Nat) (originShare : Nat)
    (sum : contributions.total + originShare = reply.state.verified)
    (backed : ∀ c, contributions.amount c ≤ s.contributions.amount c + reply.taking.brings c) :
    Sound plan { s with
      handled := s.handled ++ [reply], verified := reply.state.verified, contributions, originShare } := by
  have books := sound.running runs
  cases books.chained with
  | cons grows within handed later =>
    refine ⟨fun c => ?_,fun _ => ⟨books.fitted,books.size,books.silent,books.carries,later,sum,?_,?_⟩,sound.halted,?_⟩
    · have room := sound.backed c
      have credit := backed c
      simp only [pending,List.map_cons,List.sum_cons] at room ⊢
      omega
    · simp [bytesHandled]
    · intro frame member object told
      have whole : s.verified = plan.size := books.handed frame member object told
      have top := later.le
      have bound := books.fitted.below
      rw [books.size] at bound
      dsimp only at grows top bound ⊢
      omega
    · intro d given
      have ended := (sound.ended d given).closed
      rw [runs] at ended
      cases ended

theorem Sound.takenPlain {s : State κ} {reply : Reply κ} (sound : Sound plan { s with replies := reply :: s.replies })
    (runs : s.finished = false) (plain : reply.taking.carried = 0) :
    Sound plan { s with handled := s.handled ++ [reply] } := by
  have books := sound.running runs
  have same : reply.state.verified = s.verified := by
    cases books.chained with
    | cons grows within => dsimp only at grows within; omega
  have taken := sound.taken runs s.contributions s.originShare
    (books.sum.trans same.symm) (fun c => Nat.le_add_right _ _)
  rw [same] at taken
  exact taken
theorem Sound.ignored {s : State κ} {reply : Reply κ} (sound : Sound plan { s with replies := reply :: s.replies })
    (closed : s.finished = true) : Sound plan s := by
  refine ⟨fun c => ?_,fun runs => absurd (runs.symm.trans closed) (by simp),sound.halted,
    fun d given => { sound.ended d given with }⟩
  have room := sound.backed c
  simp only [pending,List.map_cons,List.sum_cons] at room ⊢
  omega
theorem Sound.dropped {s : State κ} {reply : Reply κ} (sound : Sound plan { s with replies := reply :: s.replies })
    (runs : s.finished = false) (handled : List (Reply κ)) (banned : List Nat) (unusedBytes : Int) :
    Sound plan ({ s with handled, banned, unusedBytes }.finish none) := by
  unfold State.finish
  rw [if_neg (by simp [runs])]
  refine ⟨fun c => ?_,fun again => (nomatch again),fun _ => rfl,fun d given => (nomatch given)⟩
  have room := sound.backed c
  simp only [pending,List.map_cons,List.sum_cons] at room ⊢
  omega
theorem Sound.accepts {s : State κ} {reply : Reply κ} (sound : Sound plan { s with replies := reply :: s.replies })
    (runs : s.finished = false) (reading : Reading) :
    Sound plan ({ s with handled := s.handled ++ [reply] }.accept plan reading reply) := by
  have dropped := sound.dropped runs (s.handled ++ [reply]) s.banned s.unusedBytes
  have books := sound.running runs
  cases books.chained with
  | cons grows within handed later =>
  dsimp only at grows within
  have sum : s.contributions.total + s.originShare = s.verified := books.sum
  have most : max s.verified reply.state.verified = reply.state.verified := max_eq_right grows
  have whole : reply.taking.carried = 0 → ∀ object, .deliver object ∈ reply.commands → s.verified = plan.size := by
    intro plain object told
    have reached := handed object told
    omega
  unfold accept
  cases taking : reply.taking with
  | started =>
    have plain : reply.taking.carried = 0 := by rw [taking]; rfl
    have taken := sound.takenPlain runs plain
    dsimp only
    unfold takeStart
    split_ifs
    · exact dropped
    · refine taken.apply (fun _ object told => whole plain object ?_) _
      rcases List.mem_append.mp told with early | late
      · exact (List.mem_filter.mp early).1
      · exact (List.mem_filter.mp late).1
    · exact dropped
    · exact taken.apply (fun _ => whole plain) _
  | plain =>
    have plain : reply.taking.carried = 0 := by rw [taking]; rfl
    exact (sound.takenPlain runs plain).apply (fun _ => whole plain) _
  | peer request completedAt bytes =>
    rw [taking] at within
    dsimp only
    unfold takePeer
    split_ifs
    · exact dropped
    · exact sound.dropped runs _ _ _
    · refine Sound.apply ?_ (fun _ object told => ?_) _
      · have taken := sound.taken runs (if 0 < s.fresh reply.state.verified
            then s.contributions.add request.connection (s.fresh reply.state.verified) else s.contributions)
          s.originShare ?_ ?_
        · dsimp only [credit]
          rw [most]
          exact taken.other ..
        · split_ifs with some
          · rw [IndexMap.total_add]
            unfold fresh
            omega
          · unfold fresh at some
            omega
        · intro c
          rw [taking]
          dsimp only [Taking.brings]
          split_ifs with some own
          · rw [IndexMap.amount_add,if_pos own]
            unfold fresh
            dsimp only [Taking.carried] at within
            omega
          · rw [IndexMap.amount_add,if_neg own]
          all_goals omega
      · dsimp only [credit]
        rw [most]
        exact handed object told
  | origin bytes =>
    dsimp only
    unfold takeOrigin
    refine Sound.apply ?_ (fun _ object told => ?_) _
    · have taken := sound.taken runs s.contributions (s.originShare + s.fresh reply.state.verified) ?_ (fun c =>
          Nat.le_add_right _ _)
      · dsimp only [credit]
        rw [most]
        exact taken.other ..
      · unfold fresh
        omega
    · dsimp only [credit]
      rw [most]
      exact handed object told
theorem Sound.takes {s : State κ} {reply : Reply κ} (sound : Sound plan { s with replies := reply :: s.replies })
    (reading : Reading) : Sound plan (s.receive plan reading reply) := by
  unfold receive
  by_cases closed : s.finished = true
  · rw [if_pos closed]
    exact sound.ignored closed
  rw [if_neg closed]
  have runs : s.finished = false := by simpa using closed
  have dropped := sound.dropped runs s.handled s.banned s.unusedBytes
  split_ifs
  · exact dropped
  · exact dropped
  · exact sound.accepts runs reading

/-! ### Calls -/

theorem Sound.queued {s : State κ} (sound : Sound plan s) (call : Call κ)
    (carries : call.event.carried = call.taking.carried)
    (room : ∀ c, s.contributions.amount c + s.pending c + call.taking.brings c ≤ s.received.amount c) :
    Sound plan { s with calls := s.calls ++ [call] } := by
  refine ⟨fun c => ?_,fun runs => { sound.running runs with carries := ?_ },sound.halted,
    fun d given => { sound.ended d given with }⟩
  · have enough := room c
    simp only [pending,List.map_append,List.sum_append,List.map_cons,List.map_nil,List.sum_cons,List.sum_nil]
      at enough ⊢
    omega
  · intro other member
    rcases List.mem_append.mp member with early | last
    · exact (sound.running runs).carries other early
    · rw [List.mem_singleton.mp last]
      exact carries

section
variable (sha256 : List UInt8 → Digest)

theorem Sound.served {s : State κ} (call : Call κ) (calls : List (Call κ)) (sound : Sound plan s)
    (queue : s.calls = call :: calls) (serves : s.finished = false → Serves n s.transfer (s.calls.map (·.event))) :
    Sound plan { s with
      calls := calls
      transfer := (s.serve sha256 call).1.transfer
      replies := s.replies ++ [(s.serve sha256 call).2] } := by
  refine ⟨fun c => ?_,fun runs => ?_,sound.halted,fun d given => { sound.ended d given with }⟩
  · have room := sound.backed c
    simp only [pending,queue,List.map_cons,List.sum_cons,List.map_append,List.sum_append,List.map_nil,List.sum_nil,
      serve] at room ⊢
    omega
  · have books := sound.running runs
    have queue' := serves runs
    rw [queue] at queue'
    have credited : Credited s.transfer call.event.carried (Transfers.handle sha256 s.transfer call.event) := by
      rcases queue'.1 with ⟨between,later⟩ | ⟨newborn,begins⟩
      · exact Transfer.between_credited sha256 between books.fitted books.silent later
      · have none := Transfer.begins_credited sha256 newborn begins
        exact { none with within := none.within.trans (Nat.le_add_right _ _) }
    have carries := books.carries call (by rw [queue]; exact List.mem_cons_self)
    have size : (Transfers.handle sha256 s.transfer call.event).size = plan.size :=
      (congrArg Transfer.Object.size credited.object).trans books.size
    refine ⟨(books.fitted.congr credited.object).congr rfl,size,rfl,?_,?_,books.sum,books.last,books.handed⟩
    · exact fun other member => books.carries other (by rw [queue]; exact List.mem_cons_of_mem _ member)
    · refine books.chained.snoc credited.grows ?_ (fun object told => ?_)
      · have within := credited.within
        rw [carries] at within
        exact within
      · exact (credited.handed object told).trans size
theorem Serves.served {t : Transfer} {rest : List Transfers.Event}
    (serves : Serves n t (event :: rest)) : Serves n (Transfers.handle sha256 t event).drainCommands.2 rest := by
  obtain ⟨first,later⟩ := serves
  have between : Between n (Transfers.handle sha256 t event) := by
    rcases first with ⟨concluded | rested,ordinary⟩ | ⟨newborn,begins⟩
    · rw [Transfer.handle_finished sha256 concluded ordinary]
      exact .inl concluded
    · exact Transfer.handle_between sha256 rested ordinary
    · exact Transfer.begins_between sha256 newborn begins
  have drained := Transfer.drained_between between
  cases rest with
  | nil => exact drained
  | cons second rest =>
    exact ⟨.inl ⟨drained,later second List.mem_cons_self⟩,fun e member => later e (List.mem_cons_of_mem _ member)⟩

/-- A load in any state of its run. -/
structure Kept (plan : Plan κ) (n : Nat) (s : State κ) : Prop where
  sound : Sound plan s
  serves : s.finished = false → Serves n s.transfer (s.calls.map (·.event))
  direct : plan.worker = false → s.calls = [] ∧ s.replies = []

omit [DecidableEq κ] in
theorem finish_queues (s : State κ) (result : Option (Delivery κ)) : (s.finish result).transfer = s.transfer ∧
    (s.finish result).calls = s.calls ∧ (s.finish result).replies = s.replies := by
  unfold State.finish
  split_ifs <;> exact ⟨rfl,rfl,rfl⟩
omit [DecidableEq κ] in
theorem apply_queues (s : State κ) (commands : List Command) (next : Option Nat) :
    (s.apply commands next).transfer = s.transfer ∧ (s.apply commands next).calls = s.calls ∧
      (s.apply commands next).replies = s.replies := by
  unfold State.apply
  split_ifs <;> exact ⟨rfl,rfl,rfl⟩
variable (plan) in
theorem receive_queues (s : State κ) (reading : Reading) (reply : Reply κ) :
    (s.receive plan reading reply).transfer = s.transfer ∧ (s.receive plan reading reply).calls = s.calls ∧
      (s.receive plan reading reply).replies = s.replies := by
  unfold receive
  split_ifs
  · exact ⟨rfl,rfl,rfl⟩
  · exact finish_queues s none
  · exact finish_queues s none
  unfold accept
  cases reply.taking with
  | started =>
    dsimp only
    unfold takeStart
    split_ifs
    all_goals first | exact finish_queues _ _ | exact apply_queues _ _ _
  | plain => exact apply_queues _ _ _
  | peer request completedAt bytes =>
    dsimp only
    unfold takePeer
    split_ifs
    all_goals first | exact finish_queues _ _ | exact apply_queues _ _ _
  | origin bytes => exact apply_queues _ _ _

theorem Kept.other {s : State κ} (kept : Kept plan n s) (asked : List (Request κ)) (requests : IndexMap Nat Nat)
    (controllers : Nat) (aborted : List Nat) (originRequests : List PieceRange) (tickTimer : Option Nat)
    (banned : List Nat) (peerBytes originBytes : Nat) (unusedBytes : Int) :
    Kept plan n { s with
      asked, requests, controllers, aborted, originRequests, tickTimer, banned, peerBytes, originBytes, unusedBytes } :=
  ⟨kept.sound.other ..,kept.serves,kept.direct⟩
theorem Kept.finish {s : State κ} (kept : Kept plan n s) {result : Option (Delivery κ)}
    (sound : Sound plan (s.finish result)) : Kept plan n (s.finish result) := by
  obtain ⟨_,calls,replies⟩ := finish_queues s result
  refine ⟨sound,fun runs => ?_,by rw [calls,replies]; exact kept.direct⟩
  have closed : (s.finish result).finished = true := by
    unfold State.finish
    split_ifs with closed
    · exact closed
    · rfl
  rw [closed] at runs
  cases runs
theorem Kept.quit {s : State κ} (kept : Kept plan n s) : Kept plan n (s.finish none) :=
  kept.finish kept.sound.quit
theorem Kept.takes {n : Nat} {s : State κ} {reply : Reply κ}
    (sound : Sound plan { s with replies := reply :: s.replies })
    (serves : s.finished = false → Serves n s.transfer (s.calls.map (·.event)))
    (direct : plan.worker = false → s.calls = [] ∧ s.replies = []) (reading : Reading) :
    Kept plan n (s.receive plan reading reply) := by
  obtain ⟨transfer,calls,replies⟩ := receive_queues plan s reading reply
  refine ⟨sound.takes reading,fun runs => ?_,by rw [calls,replies]; exact direct⟩
  rw [transfer,calls]
  by_cases closed : s.finished = true
  · unfold receive at runs
    rw [if_pos closed,closed] at runs
    cases runs
  · exact serves (by simpa using closed)

theorem Sound.submits {s : State κ} (sound : Sound plan s) (runs : s.finished = false)
    (direct : plan.worker = false → s.calls = [] ∧ s.replies = []) {taking : Taking κ}
    (serves : Serves n s.transfer (s.calls.map (·.event) ++ [event])) (carries : event.carried = taking.carried)
    (room : ∀ c, s.contributions.amount c + s.pending c + taking.brings c ≤ s.received.amount c) {reading : Reading}
    (accepted : reading.refused = false) : Kept plan n (s.submit plan sha256 reading event taking) := by
  have queued := sound.queued ⟨event,taking⟩ carries room
  unfold submit
  rw [if_neg (by simp [runs]),if_neg (by simp [accepted])]
  by_cases worker : plan.worker = true
  · rw [if_pos worker]
    exact ⟨queued,fun _ => by simpa using serves,fun page => absurd worker (by simp [page])⟩
  · rw [if_neg worker]
    -- On the page nothing waits: the call is run and its reply taken at once.
    obtain ⟨idle,none⟩ := direct (by simpa using worker)
    rw [idle] at serves
    have served :=
      queued.served sha256 ⟨event,taking⟩ [] (n := n) (by simp [idle]) (fun _ => by simpa [idle] using serves)
    refine Kept.takes ?_ ?_ ?_ reading
    · simpa [serve,idle,none] using served
    · intro _
      simpa [serve,idle] using Serves.served sha256 serves
    · intro _
      exact ⟨idle,none⟩
theorem Kept.submit {s : State κ} (kept : Kept plan n s) (taking : Taking κ)
    (later : event.starts = false) (carries : event.carried = taking.carried)
    (room : ∀ c, s.contributions.amount c + s.pending c + taking.brings c ≤ s.received.amount c) (reading : Reading) :
    Kept plan n (s.submit plan sha256 reading event taking) := by
  by_cases closed : s.finished = true
  · unfold State.submit
    rw [if_pos closed]
    exact kept
  by_cases refused : reading.refused = true
  · unfold State.submit
    rw [if_neg closed,if_pos refused]
    split_ifs
    · exact kept
    · exact kept.quit
  · exact kept.sound.submits sha256 (by simpa using closed) kept.direct
      ((kept.serves (by simpa using closed)).snoc later) carries room (by simpa using refused)
theorem Kept.calls {n : Nat} {s : State κ} (kept : Kept plan n s) {event : Transfers.Event}
    (later : event.starts = false)
    (carries : event.carried = 0) (reading : Reading) : Kept plan n (s.submit plan sha256 reading event .plain) :=
  kept.submit sha256 .plain later carries (fun c => kept.sound.backed c) reading
theorem Kept.tick {s : State κ} (kept : Kept plan n s) (reading : Reading) :
    Kept plan n (s.tick plan sha256 reading) := kept.calls sha256 rfl rfl reading

/-! ### Events -/

theorem Kept.framed {s : State κ} (kept : Kept plan n s) {frames : List Frame}
    (fewer : ∀ frame ∈ frames, ∃ old ∈ s.frames, ∀ command ∈ frame.commands, command ∈ old.commands)
    (halted : s.frames = [] → frames = []) : Kept plan n { s with frames := frames } := by
  refine ⟨⟨kept.sound.backed,fun runs => { kept.sound.running runs with handed := ?_ },
    fun closed => halted (kept.sound.halted closed),fun d given =>
      { kept.sound.ended d given with }⟩,kept.serves,kept.direct⟩
  intro frame member object told
  obtain ⟨old,member',commands⟩ := fewer frame member
  exact (kept.sound.running runs).handed old member' object (commands _ told)
theorem Kept.threw {s : State κ} (kept : Kept plan n s) : Kept plan n (s.threw plan) := by
  unfold State.threw
  split_ifs
  · exact kept.framed (by simp) (fun _ => rfl)
  · exact kept.quit
theorem Kept.run {s : State κ} (kept : Kept plan n s) (reading : Reading) {command : Command}
    (handed : s.finished = false → ∀ object, command = .deliver object → s.verified = plan.size) :
    Kept plan n (s.run plan sha256 reading command) := by
  unfold State.run
  cases command with
  | request peer range =>
    dsimp only
    split_ifs
    · exact kept.tick sha256 reading
    · cases plan.holder peer with
      | none => exact kept.threw
      | some holder => exact kept.other ..
  | fetchOrigin range =>
    dsimp only
    split_ifs
    · exact kept.quit
    · exact kept.other ..
  | cancel peer => exact kept.other ..
  | abandon peer => exact kept.other ..
  | ban peer =>
    dsimp only
    split_ifs
    · exact kept.other ..
    · exact kept.threw
  | deliver object =>
    dsimp only
    split_ifs
    · exact kept.quit
    · refine kept.finish (kept.sound.finish (fun runs d given => ?_))
      cases given
      have sum := (kept.sound.running runs).sum
      have whole := handed runs object rfl
      dsimp only
      exact ⟨rfl,by omega,by omega⟩
  | fail => exact kept.quit
theorem Kept.next {s : State κ} (kept : Kept plan n s) (reading : Reading) :
    Kept plan n (s.next plan sha256 reading) := by
  unfold State.next
  split
  · exact kept
  · rename_i next rest frames
    have popped : Kept plan n { s with frames := rest } :=
      kept.framed (fun frame member => ⟨frame,by simp [frames,member],fun _ told => told⟩)
      (fun none => by simp [frames] at none)
    exact popped.other ..
  · rename_i command commands next rest frames
    refine Kept.run sha256 (kept.framed (fun frame member => ?_) (fun none => by simp [frames] at none)) reading ?_
    · rcases List.mem_cons.mp member with rfl | old
      · exact ⟨⟨command :: commands,next⟩,by simp [frames],fun _ told => List.mem_cons_of_mem _ told⟩
      · exact ⟨frame,by simp [frames,old],fun _ told => told⟩
    · rintro runs object rfl
      exact (kept.sound.running runs).handed _ (by rw [frames]; exact List.mem_cons_self) object List.mem_cons_self
theorem Kept.receives {s : State κ} (kept : Kept plan n s) (connection : κ) (bytes : Nat) :
    Kept plan n { s with received := s.received.add connection bytes } := by
  refine ⟨⟨fun c => ?_,fun runs => { kept.sound.running runs with },kept.sound.halted,
    fun d given => { kept.sound.ended d given with }⟩,kept.serves,kept.direct⟩
  have room : s.contributions.amount c + s.pending c ≤ s.received.amount c := kept.sound.backed c
  dsimp only
  rw [IndexMap.amount_add]
  exact room.trans (Nat.le_add_right _ _)
theorem Kept.answered {n : Nat} {s : State κ} (kept : Kept plan n s) (reading : Reading) (request : Request κ)
    (bytes : Option (List UInt8)) : Kept plan n (s.answered plan sha256 reading request bytes) := by
  unfold State.answered
  dsimp only
  generalize (if s.requests.get? request.peer = some request.controller then s.requests.erase request.peer
    else s.requests) = requests
  have received := (kept.other s.asked requests s.controllers s.aborted s.originRequests s.tickTimer s.banned
    s.peerBytes s.originBytes s.unusedBytes).receives request.connection ((bytes.map List.length).getD 0)
  by_cases closed : s.finished = true
  · rw [if_pos closed]
    exact received
  rw [if_neg closed]
  by_cases barred : plan.bufferedMixed = true ∧ (reading.eligible = false ∨ reading.currentValid = false)
  · rw [if_pos barred]
    exact received.quit
  rw [if_neg barred]
  cases bytes with
  | none => exact received.calls sha256 rfl rfl reading
  | some bytes =>
    dsimp only
    split_ifs
    · exact Kept.tick sha256 (received.other ..) reading
    · refine received.submit sha256 (.peer request reading.now bytes.length) rfl rfl (fun c => ?_) reading
      have room : s.contributions.amount c + s.pending c ≤ s.received.amount c := kept.sound.backed c
      dsimp only [Option.map_some,Option.getD_some,Taking.brings]
      rw [IndexMap.amount_add]
      exact Nat.add_le_add_right room _
theorem Kept.fetched {s : State κ} (kept : Kept plan n s) (reading : Reading) (range : PieceRange)
    (bytes : Option (List UInt8)) : Kept plan n (s.fetched plan sha256 reading range bytes) := by
  unfold State.fetched
  cases bytes with
  | none => exact kept.calls sha256 rfl rfl reading
  | some bytes => exact kept.submit sha256 (.origin bytes.length) rfl rfl (fun c => kept.sound.backed c) reading
theorem Kept.progress {s : State κ} (kept : Kept plan n s) (reading : Reading) (index : Nat)
    (request : Request κ) (received : Nat) : Kept plan n (s.progress plan sha256 reading index request received) := by
  unfold State.progress
  split_ifs
  · exact kept
  · exact kept.tick sha256 reading
  · exact (kept.other ..).calls sha256 rfl rfl reading
theorem Kept.works {s : State κ} (kept : Kept plan n s) : Kept plan n (s.outer plan sha256 .work) := by
  unfold State.outer
  cases calls : s.calls with
  | nil => exact kept
  | cons call rest =>
    refine ⟨kept.sound.served sha256 call rest calls kept.serves,fun runs => ?_,fun page => ?_⟩
    · have serves := kept.serves runs
      rw [calls] at serves
      exact Serves.served sha256 serves
    rw [(kept.direct page).1] at calls
    cases calls
theorem Kept.outer {s : State κ} (kept : Kept plan n s) (event : Event) :
    Kept plan n (s.outer plan sha256 event) := by
  cases event with
  | next => exact kept
  | answered reading index bytes =>
    unfold State.outer
    dsimp only
    cases s.asked[index]? with
    | none => exact kept
    | some request => exact Kept.answered sha256 (kept.other ..) reading request bytes
  | rejected reading index =>
    unfold State.outer
    dsimp only
    cases s.asked[index]? with
    | none => exact kept
    | some request => exact Kept.calls sha256 (kept.other ..) rfl rfl reading
  | fetched reading index bytes =>
    unfold State.outer
    dsimp only
    cases s.originRequests[index]? with
    | none => exact kept
    | some range => exact Kept.fetched sha256 (kept.other ..) reading range bytes
  | progress reading index received =>
    unfold State.outer
    dsimp only
    cases s.asked[index]? with
    | none => exact kept
    | some request => exact kept.progress sha256 reading index request received
  | timer reading =>
    unfold State.outer
    dsimp only
    cases s.tickTimer with
    | none => exact kept
    | some _ => exact Kept.tick sha256 (kept.other ..) reading
  | deadline reading => exact kept.tick sha256 reading
  | work => exact kept.works sha256
  | reply reading =>
    unfold State.outer
    dsimp only
    cases replies : s.replies with
    | nil => exact kept
    | cons reply rest =>
      have sound : Sound plan { s with replies := reply :: rest } := by
        rw [← replies]
        exact kept.sound
      refine Kept.takes (s := { s with replies := rest }) sound kept.serves (fun page => ?_) reading
      rw [(kept.direct page).2] at replies
      cases replies
  | cutOff => exact kept.quit
theorem Kept.step {n : Nat} {s : State κ} (kept : Kept plan n s) (event : Event) :
    Kept plan n (s.step plan sha256 event) := by
  have outer := kept.outer sha256 event
  unfold State.step
  cases event with
  | next reading => exact kept.next sha256 reading
  | work | cutOff => exact outer
  | _ =>
    dsimp only
    split_ifs
    · exact outer
    · exact kept

/-! ### Runs -/

omit [DecidableEq κ] in
theorem create_newborn {transfer : Transfer} (made : plan.create = some transfer) :
    Newborn plan.pieces.length transfer ∧ transfer.peerOnly = plan.peerOnly := by
  unfold Plan.create at made
  dsimp only at made
  split_ifs at made with only mixed mixed
  · exact ⟨(Transfer.peerOnly_newborn made).1,(Transfer.peerOnly_newborn made).2.1.trans only.symm⟩
  · have made' := Transfer.exclusive_newborn made
    exact ⟨made'.1,made'.2.1.trans (by simpa using only)⟩
  · have made' := Transfer.new_newborn made
    exact ⟨made'.1,made'.2.1.trans (by simpa using only)⟩
omit [DecidableEq κ] in
theorem create_counted {transfer : Transfer} (made : plan.create = some transfer) :
    transfer.size = plan.size ∧ pieceCount plan.size = some plan.pieces.length := by
  unfold Plan.create at made
  dsimp only at made
  split_ifs at made
  · obtain ⟨plain,new,rfl⟩ := Option.map_eq_some_iff.mp made
    have size := Transfer.new_size new
    exact ⟨size,Transfer.new_counted new⟩
  · obtain ⟨plain,new,exclusive⟩ := Option.bind_eq_some_iff.mp made
    unfold Transfer.withExclusiveOrigin at exclusive
    split_ifs at exclusive
    cases exclusive
    have size := Transfer.new_size new
    exact ⟨size,Transfer.new_counted new⟩
  · exact ⟨Transfer.new_size made,Transfer.new_counted made⟩
omit [DecidableEq κ] in
theorem startCall_begins {transfer : Transfer} (mode : transfer.peerOnly = plan.peerOnly) (moment : Nat) :
    Begins transfer (plan.startCall moment) := by
  unfold Plan.startCall
  dsimp only
  split_ifs with only
  · exact .peerOnly (mode.trans only)
  · exact .start (fun _ => rfl)
theorem new_sound {transfer : Transfer} (made : plan.create = some transfer) : Sound plan (State.new transfer) := by
  obtain ⟨newborn,_⟩ := create_newborn made
  obtain ⟨size,counted⟩ := create_counted made
  refine ⟨fun _ => le_rfl,fun _ => ⟨⟨?_,newborn.pieceSize⟩,size,newborn.commands,
    by simp [State.new],?_,rfl,rfl,by simp [State.new]⟩,fun _ => rfl,fun d given => (nomatch given)⟩
  · show pieceCount transfer.size = some transfer.verified.length
    rw [size,newborn.length]
    exact counted
  · show Chained plan.size 0 [] transfer.verifiedBytes
    rw [Transfer.fresh_bytes newborn.fresh]
    exact .nil 0
theorem opened_kept {transfer : Transfer} (made : plan.create = some transfer) (reading : Reading) :
    Kept plan plan.pieces.length (opened plan sha256 transfer reading) := by
  have sound := new_sound made
  obtain ⟨newborn,mode⟩ := create_newborn made
  unfold opened
  by_cases refused : reading.refused = true
  · rw [if_pos refused]
    exact ⟨sound.quit,fun runs => (nomatch runs),fun _ => ⟨rfl,rfl⟩⟩
  · rw [if_neg refused]
    refine sound.submits sha256 rfl (fun _ => ⟨rfl,rfl⟩) ⟨.inr ⟨newborn,startCall_begins mode _⟩,by simp⟩ ?_
      (fun _ => le_rfl) (by simpa using refused)
    unfold Plan.startCall
    dsimp only
    split_ifs <;> rfl
theorem after_kept {transfer : Transfer} (made : plan.create = some transfer) (reading : Reading)
    (events : List Event) :
    Kept plan plan.pieces.length (after plan sha256 transfer reading events) := by
  unfold after
  induction events using List.reverseRecOn with
  | nil => exact opened_kept sha256 made reading
  | append_singleton events event ih =>
    rw [List.foldl_append]
    exact ih.step sha256 event
end
end State

structure Load (κ : Type u) extends Plan κ where
  transfer : Transfer
  made : toPlan.create = some transfer

/-- The load after the events, from the reading of its start. -/
def Load.after (load : Load κ) (sha256 : List UInt8 → Digest) (reading : Reading) (events : List Event) : State κ :=
  State.after load.toPlan sha256 load.transfer reading events

/-- Every verified byte is credited once: while the load runs, what the connections and
    origin are credited with is what the replies taken say is verified; of an object handed
    over, it is the peers' reported share and the rest; and no connection is credited more
    than came on it. -/
structure CreditedOnce (size : Nat) (s : State κ) : Prop where
  running : s.finished = false → s.contributions.total + s.originShare = s.bytesHandled ∧ s.bytesHandled ≤ size
  delivered : ∀ delivery, s.result = some delivery → (delivery.contributions.map (·.2)).sum = delivery.peerBytes ∧
    delivery.peerBytes + s.originShare = size ∧
    ∀ entry ∈ delivery.contributions, entry.2 ≤ s.received.amount entry.1
  received : ∀ connection, s.contributions.amount connection ≤ s.received.amount connection

/-- In every state of every run of a load of several holders, on the page or in a worker,
    every verified byte is credited to one source. -/
theorem verified_once (load : Load κ) (sha256 : List UInt8 → Digest) (reading : Reading) (events : List Event) :
    CreditedOnce load.size (load.after sha256 reading events) := by
  have sound := (State.after_kept sha256 load.made reading events).sound
  unfold Load.after
  generalize State.after load.toPlan sha256 load.transfer reading events = s at sound
  have backed : ∀ connection, s.contributions.amount connection ≤ s.received.amount connection :=
    fun connection => (Nat.le_add_right _ _).trans (sound.backed connection)
  constructor
  · intro runs
    have books := sound.running runs
    have most := books.chained.le.trans books.fitted.below
    rw [books.size] at most
    rw [books.last]
    exact ⟨books.sum,most⟩
  · intro delivery given
    have handed := sound.ended delivery given
    have peers := handed.peers
    have whole := handed.whole
    rw [handed.entries]
    refine ⟨handed.peers,handed.whole,?_⟩
    rintro ⟨connection,bytes⟩ member
    have held : s.contributions.amount connection = bytes := by
      rw [IndexMap.amount,IndexMap.mem_entries.mp member]
      rfl
    exact held ▸ backed connection
  · exact backed
private def wholePlan : Plan Nat :=
  ⟨true,false,false,1000,0,1,1,Transfer.zeroDigest,[Transfer.zeroDigest],[⟨3,7,some 5,some 100⟩],none,none,none⟩
private def early : Reading := ⟨0,0,true,true,true,true,true,false,false⟩
/-- A holder sends the one piece of an object to a worker's load, and is credited with it. -/
theorem verified_once_delivered : ∃ load : Load Nat, load.size = 1 ∧
    let s := load.after (fun _ => List.replicate 32 0) early
      [.work,.reply early,.next early,.next early,.answered early 0 (some [9]),.work,.reply early,.next early]
    s.result.map (fun delivery => (delivery.peerBytes,delivery.contributions)) = some (1,[(7,1)]) ∧
      1 + s.originShare = 1 := by
  obtain ⟨transfer,made⟩ := Option.isSome_iff_exists.mp (by decide +kernel : wholePlan.create.isSome = true)
  refine ⟨⟨wholePlan,transfer,made⟩,rfl,?_⟩
  intro s
  have given :
      wholePlan.create.map (fun transfer => (State.after wholePlan (fun _ => List.replicate 32 0) transfer early
      [.work,.reply early,.next early,.next early,.answered early 0 (some [9]),.work,.reply early,
        .next early]).result.map
        (fun delivery => (delivery.peerBytes,delivery.contributions))) = some (some (1,[(7,1)])) := by decide +kernel
  rw [made] at given
  have told : s.result.map (fun delivery => (delivery.peerBytes,delivery.contributions)) = some (1,[(7,1)]) :=
    Option.some.inj given
  refine ⟨told,?_⟩
  obtain ⟨delivery,handed,same⟩ := Option.map_eq_some_iff.mp told
  have credited := ((verified_once ⟨wholePlan,transfer,made⟩ (fun _ => List.replicate 32 0) early
    [.work,.reply early,.next early,.next early,.answered early 0 (some [9]),.work,.reply early,
      .next early]).delivered delivery handed).2.1
  rwa [(Prod.mk.inj same).1] at credited

end RelaySwarm.MultiHolder
