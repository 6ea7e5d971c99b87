import RelaySwarm.TransferJournal

/-!
Requests to a peer come one at a time. A request finds nothing outstanding at its
peer and the peer never told to stop, and asks for a proper range within the cap of
pieces and bytes (`Bracketed`); only a peer with an outstanding request is
cancelled, and an ending cancels them all. The journal of every run has these
properties (`requests_bracketed`).
-/
namespace RelaySwarm.Transfers
open Pieces Planning

variable {t t' u : Transfer} {p n : Nat} {sha256 : List UInt8 → Digest} {e : Event} {log : List Entry}
theorem Standing.next_stopped (terms : Terms) (s : Source) {standing : Standing} (stopped : standing.stopped = true)
    (entry : Entry) : (standing.next terms s entry).stopped = true := by
  unfold Standing.next
  split
  all_goals try split_ifs
  all_goals first
    | exact stopped
    | rfl
theorem standing_stopped (terms : Terms) (s : Source) {pre : List Entry}
    (stopped : (standing terms s pre).stopped = true)
    (post : List Entry) : (standing terms s (pre ++ post)).stopped = true := by
  induction post using List.reverseRecOn with
  | nil => simpa using stopped
  | append_singleton post entry ih =>
    rw [← List.append_assoc,standing_append]
    exact Standing.next_stopped terms s ih entry

def cancelled (peers : List Nat) : List Entry := peers.map (fun p => .told (.cancel p))

theorem standing_cancelled (terms : Terms) (s : Source) (log : List Entry) (peers : List Nat) :
    (standing terms s (log ++ cancelled peers)).asked =
      if ∃ p ∈ peers, s = .peer p then [] else (standing terms s log).asked := by
  induction peers using List.reverseRecOn with
  | nil => simp [cancelled]
  | append_singleton peers p ih =>
    have stops : (Command.cancel p).stops p := .inl rfl
    rw [cancelled,List.map_append,List.map_singleton,← List.append_assoc,standing_stops _ _ _ stops]
    change (if s = .peer p then (⟨[],true⟩ : Standing) else standing terms s (log ++ cancelled peers)).asked = _
    by_cases own : s = .peer p
    · rw [if_pos own,if_pos ⟨p,by simp,own⟩]
    · rw [if_neg own,ih]
      congr 1
      simp [own,or_and_right,exists_or]

namespace Transfer

structure Askable (t : Transfer) (range : PieceRange) : Prop where
  some : range.start < range.stop
  inside : range.stop ≤ t.verified.length
  pieces : range.stop - range.start ≤ maxPeerRequestPieces
  bytes : range.stop = range.start + 1 ∨ t.rangeLength range ≤ maxPeerRequestBytes
/-- A request finds its peer with nothing outstanding and not stopped, and asks for a
    range in bounds. -/
def Requests (t : Transfer) (terms : Terms) (log : List Entry) : Prop :=
  ∀ pre p range post, log = pre ++ .told (.request p range) :: post →
    standing terms (.peer p) pre = ⟨[],false⟩ ∧ Askable t range
/-- What comes just before the command that ends a transfer: one cancel for exactly
    each peer with an outstanding request. -/
def Clears (terms : Terms) (log : List Entry) : Prop := ∀ pre c post, log = pre ++ .told c :: post → c.ends = true →
  ∀ before peers, pre = before ++ cancelled peers →
    peers.Nodup ∧ ∀ p, p ∈ peers ↔ (standing terms (.peer p) before).asked ≠ []

/-- What holds of a command where it stands. -/
def Bracketed (o : Transfer) (pre : List Entry) : Command → Prop
  | .request p range => standing o.terms (.peer p) pre = ⟨[],false⟩ ∧ Askable o range
  | .cancel p => (standing o.terms (.peer p) pre).asked ≠ []
  | .deliver _ => ∀ p, (standing o.terms (.peer p) pre).asked = []
  | .fail => ∀ p, (standing o.terms (.peer p) pre).asked = []
  | _ => True

/-! ### One issue to a peer -/

/-- A peer is sent at most the front of its queue, cut to the cap, and only when it
    is idle. -/
theorem sendQueue_peer (exclusive : Bool) (p : Nat) {cap count : Nat} (positive : 0 < cap) (idle : Bool) (ahead : Nat)
    {queue : List PieceRange} (within : Within count queue) :
    (sendQueue exclusive (.peer p) cap idle ahead queue).1 = [] ∨ idle = true ∧
      ∃ range : PieceRange, (sendQueue exclusive (.peer p) cap idle ahead queue).1 = [range] ∧
        range.start < range.stop ∧ range.stop ≤ count ∧ range.stop - range.start ≤ cap := by
  cases queue with
  | nil => exact .inl rfl
  | cons range rest =>
    obtain ⟨ordered,inside⟩ := within range (by simp)
    cases idle with
    | false => exact .inl (sendQueue_busy exclusive p cap ahead _)
    | true =>
      right
      refine ⟨rfl,?_⟩
      simp only [sendQueue,Source.isPeer,issueCap,reduceCtorEq,false_and,and_false,if_false,true_or,true_and,
        Bool.true_eq_false]
      split_ifs with cut
      · exact ⟨_,rfl,by simp; omega,by simp; omega,by simp; omega⟩
      · refine ⟨range,by rw [sendQueue_busy],ordered,inside,?_⟩
        simp only [min_lt_iff,not_or,not_lt] at cut
        omega
theorem askable_of_cap {range : PieceRange} (some : range.start < range.stop)
    (inside : range.stop ≤ t.verified.length)
    (cap : range.stop - range.start ≤ min (max (maxPeerRequestBytes / t.pieceSize) 1) maxPeerRequestPieces) :
    Askable t range := by
  refine ⟨some,inside,le_trans cap (min_le_right _ _),?_⟩
  by_cases single : range.stop = range.start + 1
  · exact .inl single
  right
  have pieces : range.stop - range.start ≤ maxPeerRequestBytes / t.pieceSize := by
    have := le_trans cap (min_le_left _ _)
    omega
  have bytes : (range.stop - range.start) * t.pieceSize ≤ maxPeerRequestBytes :=
    le_trans (Nat.mul_le_mul_right _ pieces) (Nat.div_mul_le_self _ _)
  have length : t.rangeLength range ≤ range.stop * t.pieceSize - range.start * t.pieceSize :=
    Nat.sub_le_sub_right (min_le_left _ _) _
  rw [Nat.sub_mul] at bytes
  exact le_trans length bytes
theorem issue_asks
    (within : ∀ lane, t.lanes.get? (.peer p) = some lane → Within t.verified.length lane.queue) (now : Nat) :
    (t.issue now (.peer p)).commands = t.commands ∨ t.flight (.peer p) = [] ∧
      ∃ range, Askable t range ∧ (t.issue now (.peer p)).commands = t.commands ++ [.request p range] := by
  unfold issue
  cases found : t.lanes.get? (.peer p) with
  | none => exact .inl rfl
  | some lane =>
    simp only [reduceCtorEq,false_and,and_false,if_false]
    have positive : 0 < min (max (maxPeerRequestBytes / t.pieceSize) 1) maxPeerRequestPieces := by
      simp [maxPeerRequestPieces]
    generalize (if t.holdTail (.peer p) then _ else _ : Nat) = ahead
    rcases sendQueue_peer t.exclusiveOrigin p positive lane.inFlight.isEmpty ahead (within lane found) with
      none | ⟨idle,range,same,some,inside,cap⟩
    · exact .inl (by rw [none]; simp)
    · refine .inr ⟨?_,range,askable_of_cap some inside cap,by rw [same]; rfl⟩
      rw [flight_found found,List.isEmpty_iff.mp idle]
      rfl

/-! ### The journal -/

/-- The journal so far is bracketed, and the lanes agree with it. -/
structure Bracket (o : Transfer) (log : List Entry) (t : Transfer) : Prop where
  agrees : Agrees o.terms log t
  count : t.verified.length = o.verified.length
  each : Each (Bracketed o) (log ++ t.told)

section
variable {o : Transfer} {log : List Entry}

theorem Bracket.quiet (bracket : Bracket o log t) (agrees : Agrees o.terms log t')
    (verified : t'.verified.length = t.verified.length) (commands : t'.commands = t.commands) : Bracket o log t' := by
  refine ⟨agrees,verified.trans bracket.count,?_⟩
  have said : t'.told = t.told := by rw [told,commands]; rfl
  rw [said]
  exact bracket.each
theorem Askable.same (bracket : Bracket o log t) {range : PieceRange} (askable : Askable t range) :
    Askable o range := by
  refine ⟨askable.some,bracket.count ▸ askable.inside,askable.pieces,askable.bytes.imp id (fun bytes => ?_)⟩
  have same : t.rangeLength range = o.rangeLength range := congrFun (congrArg Terms.length bracket.agrees.same) range
  rwa [← same]
theorem Bracket.issue (bracket : Bracket o log t) {s : Source} (used : InUse t s)
    (within : ∀ lane, t.lanes.get? s = some lane → Within t.verified.length lane.queue) (now : Nat) :
    Bracket o log (t.issue now s) := by
  have agrees := bracket.agrees.issue now s
  have verified := congrArg List.length (issue_works t now s).verified
  cases s with
  | origin =>
    obtain ⟨sent,_,commands⟩ := issue_sends t now .origin
    refine ⟨agrees,verified.trans bracket.count,?_⟩
    rw [told,commands,List.map_append,← List.append_assoc]
    refine bracket.each.tells _ (fun before c rest split => ?_)
    have member : c ∈ sent.map (requestOf .origin) := by rw [split]; simp
    obtain ⟨range,_,rfl⟩ := List.mem_map.mp member
    trivial
  | peer p =>
    rcases issue_asks within now with same | ⟨idle,range,askable,commands⟩
    · exact bracket.quiet agrees verified same
    · refine ⟨agrees,verified.trans bracket.count,?_⟩
      have said : (t.issue now (.peer p)).told = t.told ++ [.told (.request p range)] := by
        rw [told,commands]
        simp [told]
      rw [said,← List.append_assoc]
      refine each_append.mpr ⟨bracket.each,fun c is => ?_⟩
      cases is
      have asked := (bracket.agrees.asked (.peer p)).trans idle
      have running : (standing o.terms (.peer p) (log ++ t.told)).stopped = false := by
        by_contra stopped
        exact bracket.agrees.stopped p (by simpa using stopped) used
      refine ⟨?_,askable.same bracket⟩
      cases here : standing o.terms (.peer p) (log ++ t.told) with
      | mk list stopped =>
        rw [here] at asked running
        simp_all
theorem Bracket.extend (bracket : Bracket o log t) (s : Source) (ranges : List PieceRange)
    (finishAt : ℚ → ℚ) : Bracket o log (t.extendQueue s ranges finishAt) :=
  bracket.quiet (bracket.agrees.extend s ranges finishAt) rfl rfl
theorem Bracket.grow (bracket : Bracket o log t) (orderly : Orderly t) {s : Source} (used : InUse t s)
    {ranges : List PieceRange} (within : Within t.verified.length ranges) (finishAt : ℚ → ℚ) (now : Nat) :
    Bracket o log ((t.extendQueue s ranges finishAt).issue now s) := by
  obtain ⟨lane,found,use⟩ := used
  have extended : (t.extendQueue s ranges finishAt).lanes.get? s =
      some { lane with queue := lane.queue ++ ranges, finishAt := finishAt lane.finishAt } := by
    rw [extendQueue,OrderedMap.get?_modify_self,found]
    rfl
  refine (bracket.extend s ranges finishAt).issue ⟨_,extended,use⟩ (fun other here => ?_) now
  rw [extended] at here
  cases here
  have old := orderly.within s lane found
  exact within_append.mpr ⟨(within_append.mp old).2,within⟩
theorem Bracket.give (bracket : Bracket o log t) (ready : Ready t) (given : Give t t') :
    Bracket o log t' := by
  have agrees := bracket.agrees.give given
  have verified := congrArg List.length given.works.verified
  cases given with
  | notes quiet => exact bracket.quiet agrees verified quiet.commands
  | gives found use now fit finishAt _ => exact bracket.grow ready.orderly ⟨_,found,use⟩ fit.within finishAt now
  | tries found use now fit finishAt _ =>
    have grown := bracket.grow ready.orderly ⟨_,found,use⟩ fit.within finishAt now
    exact grown.quiet agrees rfl rfl
  | @issues s lane found use now =>
    refine bracket.issue ⟨lane,found,use⟩ (fun other here => ?_) now
    exact (within_append.mp (ready.orderly.within s other here)).2
  | yields claimed => exact bracket.quiet agrees verified rfl
theorem Bracket.act (bracket : Bracket o log t) (ready : Ready t) (act : Act t t') :
    Bracket o log t' := by
  cases act with
  | give given => exact bracket.give ready given
  | @retires p command stops flying =>
    have agrees := bracket.agrees.act (.retires stops flying)
    obtain ⟨_,same⟩ := retire_frame (t.push command) (.peer p)
    refine ⟨agrees,by rw [same]; exact bracket.count,?_⟩
    have said : ((t.push command).retire (.peer p)).1.told = t.told ++ [.told command] := by
      rw [same]
      exact told_push t command
    rw [said,← List.append_assoc]
    refine each_append.mpr ⟨bracket.each,fun c is => ?_⟩
    cases is
    rcases stops with rfl | rfl | rfl
    · show (standing o.terms (.peer p) (log ++ t.told)).asked ≠ []
      rw [bracket.agrees.asked]
      exact flying rfl
    · trivial
    · trivial
theorem Bracket.endgame (bracket : Bracket o log t) (ready : Ready t) (now : Nat) :
    Bracket o log (t.endgame now) := by
  cases chosen : t.endgameTarget now with
  | none => rw [endgame_idle chosen]; exact bracket
  | some s =>
    refine (endgame_induction ready (P := fun _ u => Bracket o log u) chosen
      (fun u range rest ready' used within held => ?_) (bracket.give ready (.notes (markDuplicated_quiet t)))).1
    exact held.grow ready'.orderly used (fun r member => within r (by simp_all)) id now
theorem Bracket.drained (bracket : Bracket o log t) : Bracket o (log ++ t.told) t.drainCommands.2 := by
  refine ⟨bracket.agrees.drained,bracket.count,?_⟩
  have none : t.drainCommands.2.told = [] := rfl
  rw [none,List.append_nil]
  exact bracket.each
theorem Entered.silent (orderly : Orderly t)
    (entered : Entered sha256 t e u) : u.commands = t.commands := by
  cases entered with
  | tick | progress | late | unasked | short | unused => rfl
  | fails | wrong =>
    obtain ⟨_,same⟩ := retire_frame t (.peer _)
    rw [same]
  | spoiled found flying => exact (response_lanes sha256 orderly found flying _).2.2.2
  | @answered _ source _ _ range bytes found flying =>
    obtain ⟨_,_,frame⟩ := credited_frame (response sha256 t source range bytes) source
    rw [frame]
    exact (response_lanes sha256 orderly found flying bytes).2.2.2
theorem Bracket.entered (bracket : Bracket o log t)
    (ready : Ready t) (silent : t.commands = []) (entered : Entered sha256 t e u) : Bracket o (log ++ [.call e]) u := by
  refine ⟨bracket.agrees.entered ready silent entered,
    (Ground.count (entered.ground sha256 ready.orderly)).trans bracket.count,?_⟩
  have none : u.told = t.told := by rw [told,entered.silent ready.orderly]; rfl
  have empty : t.told = [] := by rw [told,silent]; rfl
  have each := bracket.each
  rw [empty,List.append_nil] at each
  rw [none,empty,List.append_nil]
  exact each.call e

/-- The peers that an ending cancels. -/
def sending (t : Transfer) : List Nat := t.lanes.entries.filterMap (fun entry => match entry.1 with
  | .peer p => if entry.2.inFlight = [] then none else some p
  | .origin => none)
theorem mem_sending : p ∈ t.sending ↔ t.flight (.peer p) ≠ [] := by
  unfold sending
  rw [List.mem_filterMap]
  constructor
  · rintro ⟨⟨s,lane⟩,member,same⟩
    cases s with
    | origin => cases same
    | peer q =>
      dsimp only at same
      split_ifs at same with none
      cases same
      rw [flight_found (OrderedMap.mem_entries.mp member)]
      simpa using none
  · intro flying
    cases found : t.lanes.get? (.peer p) with
    | none => simp [flight,found] at flying
    | some lane =>
      rw [flight_found found] at flying
      refine ⟨(.peer p,lane),OrderedMap.mem_entries.mpr found,?_⟩
      dsimp only
      rw [if_neg (by simpa using flying)]
theorem sending_nodup (t : Transfer) : t.sending.Nodup := by
  have keys := entries_nodup t
  unfold sending
  generalize t.lanes.entries = entries at keys
  induction entries with
  | nil => exact List.nodup_nil
  | cons entry rest ih =>
    rw [List.map_cons,List.nodup_cons] at keys
    obtain ⟨absent,keys⟩ := keys
    rw [List.filterMap_cons]
    split
    · exact ih keys
    · rename_i p is
      refine List.nodup_cons.mpr ⟨fun again => absent ?_,ih keys⟩
      obtain ⟨other,member,is'⟩ := List.mem_filterMap.mp again
      have key : ∀ (e : Source × Lane), (match e.1 with
          | .peer p => if e.2.inFlight = [] then none else some p
          | .origin => none) = some p → e.1 = .peer p := by
        rintro ⟨s,lane⟩ same
        cases s with
        | origin => cases same
        | peer q =>
          dsimp only at same
          split_ifs at same
          cases same
          rfl
      exact List.mem_map.mpr ⟨other,member,(key other is').trans (key entry is).symm⟩
theorem cancels_sending (t : Transfer) : t.cancels.map .told = cancelled t.sending := by
  unfold cancels cancelled sending
  rw [List.map_filterMap,List.map_filterMap]
  congr 1
  funext entry
  rcases entry with ⟨s,lane⟩
  cases s with
  | origin => rfl
  | peer p =>
    dsimp only
    split_ifs <;> rfl
/-- What an ending tells: a cancel for each peer still sending, and one command that
    ends the transfer. -/
theorem ending_told (ready : Ready t) (concluded : t'.finished = true)
    (ending : Ending sha256 t t') : ∃ last : Command, last.ends = true ∧
      t'.told = t.told ++ cancelled t.sending ++ [.told last] := by
  have failed : t.fail.told = t.told ++ cancelled t.sending ++ [.told .fail] := by
    rw [← cancels_sending]
    simp [told,fail,push,closeOut]
  cases ending with
  | runs => rw [ready.running] at concluded; cases concluded
  | fails => exact ⟨.fail,rfl,failed⟩
  | finishes =>
    unfold finish
    split_ifs
    · exact ⟨.fail,rfl,failed⟩
    · refine ⟨.deliver t.data,rfl,?_⟩
      rw [← cancels_sending]
      simp [told,push,closeOut]
theorem Bracket.ended (bracket : Bracket o log t) {last : Command} (ends : last.ends = true) :
    Each (Bracketed o) (log ++ (t.told ++ cancelled t.sending ++ [.told last])) := by
  have cleared : Each (Bracketed o) (log ++ t.told ++ cancelled t.sending) := by
    have same : cancelled t.sending = (t.sending.map .cancel).map .told := by simp [cancelled]
    rw [same]
    refine bracket.each.tells _ (fun before c rest split => ?_)
    obtain ⟨peers,others,named,rfl,heads⟩ := List.map_eq_append_iff.mp split
    cases others with
    | nil => simp at heads
    | cons p others =>
      rw [List.map_cons,List.cons.injEq] at heads
      obtain ⟨rfl,_⟩ := heads
      have distinct := sending_nodup t
      rw [named,List.nodup_append'] at distinct
      have flying : p ∈ t.sending := by rw [named]; simp
      show (standing o.terms (.peer p) _).asked ≠ []
      have listed : (peers.map Command.cancel).map Entry.told = cancelled peers := by simp [cancelled]
      rw [listed,standing_cancelled,if_neg,bracket.agrees.asked]
      · exact mem_sending.mp flying
      · rintro ⟨q,member,same⟩
        cases same
        exact distinct.2.2 member (by simp)
  rw [← List.append_assoc,← List.append_assoc]
  refine each_append.mpr ⟨cleared,fun c is => ?_⟩
  cases is
  have nothing : ∀ p, (standing o.terms (.peer p) (log ++ t.told ++ cancelled t.sending)).asked = [] := by
    intro p
    rw [standing_cancelled,bracket.agrees.asked]
    split_ifs with listed
    · rfl
    · by_contra flying
      exact listed ⟨p,mem_sending.mpr flying,rfl⟩
  cases last with
  | request | fetchOrigin | cancel | abandon | ban => cases ends
  | deliver | fail => exact nothing
end

/-! ### What the journal says -/

theorem bracketed_requests {o : Transfer} (each : Each (Bracketed o) log) : Requests o o.terms log :=
  fun pre p range post split => each pre (.request p range) post split
theorem cancelled_split {a b : List Nat} {rest : List Nat} (same : a = b ++ p :: rest) :
    cancelled a = cancelled b ++ .told (.cancel p) :: cancelled rest := by
  rw [same]
  simp [cancelled]
theorem bracketed_clears {o : Transfer} (each : Each (Bracketed o) log) : Clears o.terms log := by
  intro pre c post split ends before peers cut
  have nothing : ∀ p, (standing o.terms (.peer p) pre).asked = [] := by
    have last := each pre c post split
    cases c with
    | request | fetchOrigin | cancel | abandon | ban => cases ends
    | deliver | fail => exact last
  -- A peer in the block is cancelled where it has something outstanding.
  have isOpen : ∀ a p b, peers = a ++ p :: b → p ∉ a ∧ (standing o.terms (.peer p) before).asked ≠ [] := by
    intro a p b named
    have found := each (before ++ cancelled a) (.cancel p) (cancelled b ++ .told c :: post) (by
      rw [split,cut,cancelled_split named]
      simp)
    change (standing o.terms (.peer p) (before ++ cancelled a)).asked ≠ [] at found
    rw [standing_cancelled] at found
    split_ifs at found with early
    · exact absurd rfl found
    · exact ⟨fun member => early ⟨p,member,rfl⟩,found⟩
  constructor
  · rw [List.nodup_iff_injective_get]
    intro i j same
    by_contra differs
    have ordered : ∀ i j : Fin peers.length, i < j → peers.get i ≠ peers.get j := by
      intro i j less equal
      have named : peers = peers.take j ++ peers.get j :: peers.drop (j + 1) := by simp
      refine (isOpen _ _ _ named).1 ?_
      rw [← equal]
      exact List.mem_take_iff_getElem.mpr ⟨i,by simp; omega,rfl⟩
    rcases lt_or_gt_of_ne differs with less | more
    · exact ordered i j less same
    · exact ordered j i more same.symm
  · intro p
    constructor
    · intro member
      obtain ⟨a,b,named⟩ := List.append_of_mem member
      exact (isOpen a p b named).2
    · intro some
      by_contra absent
      have kept := nothing p
      rw [cut,standing_cancelled,if_neg] at kept
      · exact some kept
      · rintro ⟨q,member,same⟩
        cases same
        exact absent member
theorem Requests.one {terms : Terms} (requests : Requests t terms log) :
    ∀ pre post, log = pre ++ post → ∀ p, (standing terms (.peer p) pre).asked.length ≤ 1 := by
  intro pre
  induction pre using List.reverseRecOn with
  | nil => intro post _ p; simp [standing]
  | append_singleton pre entry ih =>
    intro post split p
    have before := ih (entry :: post) (by simp [split]) p
    rw [standing_append]
    cases entry with
    | call e =>
      cases e with
      | start | startPeerOnly | progress | tick => exact before
      | failed =>
        simp only [Standing.next]
        split_ifs
        · exact Nat.zero_le _
        · exact before
      | delivered =>
        simp only [Standing.next]
        split_ifs
        · exact le_trans List.length_erase_le before
        · exact Nat.zero_le _
        · exact before
        · exact before
    | told c =>
      cases c with
      | request q range =>
        simp only [Standing.next]
        split_ifs with own
        · cases own
          rw [(requests pre p range post (by simp [split])).1]
          simp
        · exact before
      | fetchOrigin => exact before
      | deliver | fail => exact before
      | cancel | abandon | ban =>
        simp only [Standing.next]
        split_ifs
        · exact Nat.zero_le _
        · exact before
theorem Requests.stopped {terms : Terms} (requests : Requests t terms log)
    {pre post : List Entry} (split : log = pre ++ post) (stopped : (standing terms (.peer p) pre).stopped = true)
    (range : PieceRange) : .told (.request p range) ∉ post := by
  intro member
  obtain ⟨a,b,rfl⟩ := List.append_of_mem member
  have fresh := (requests (pre ++ a) p range b (by simp [split])).1
  have concluded := standing_stopped terms (.peer p) stopped a
  rw [fresh] at concluded
  cases concluded

section
variable (sha256 : List UInt8 → Digest)

theorem Opened.terms (opened : Opened n t u) : u.terms = t.terms := by
  refine terms_eq (congrArg Object.size opened.object) (congrArg Object.pieceSize opened.object) opened.peerOnly ?_
  simp only [floorAt,opened.deadline,opened.config]
theorem Unworked.flight (idle : Unworked t) (s : Source) : t.flight s = [] := by
  cases found : t.lanes.get? s with
  | none => simp [Transfer.flight,found]
  | some lane => rw [flight_found found,(idle s lane found).1]; rfl
theorem Begins.starts (begins : Begins t e) : e.starts = true := by
  cases begins <;> rfl
theorem standing_start (terms : Terms) (s : Source) (starts : e.starts = true) :
    standing terms s [.call e] = ⟨[],false⟩ := by
  cases e <;> first | rfl | cases starts
theorem Opened.agrees (opened : Opened n t u) {first : Event}
    (begins : Begins t first) : Agrees t.terms [.call first] u := by
  have none : u.told = [] := by rw [told,opened.commands]; rfl
  refine ⟨opened.terms,fun s => ?_,fun p stopped => ?_⟩
  · rw [none,List.append_nil,standing_start _ _ begins.starts,opened.idle.flight]
  · rw [none,List.append_nil,standing_start _ _ begins.starts] at stopped
    cases stopped
theorem run_bracketed (newborn : Newborn n t) {first : Event} (begins : Begins t first)
    {events : List Event} (later : ∀ e ∈ events, e.starts = false) :
    Each (Bracketed t) (journal sha256 t (first :: events)) := by
  have start : ∀ u, Opened n t u → Bracket t [.call first] u := by
    intro u opened
    have none : u.told = [] := by rw [told,opened.commands]; rfl
    refine ⟨opened.agrees begins,by rw [opened.count,newborn.length],?_⟩
    rw [none,List.append_nil]
    exact (Each.nil _).call first
  rcases journal_induction sha256 newborn begins (P := Bracket t) (C := fun _ _ => True)
    (fun u opened _ => start u opened)
    (fun log t' e u rested silent _ held enters => held.entered rested.ready silent enters)
    (fun log u v ready held act => held.act ready act)
    (fun log t' now _ _ _ ready held => held.endgame ready now) (fun log u held => held.drained) later
    (fun _ _ _ _ => trivial) with ⟨_,silent,bracket⟩ | ⟨_,before,u,t',calls,bracket,ready,concluded,ending,same⟩
  · have each := bracket.each
    rw [told,silent] at each
    simpa using each
  · obtain ⟨last,ends,said⟩ := ending_told ready concluded ending
    rw [same,said]
    exact (bracket.ended ends).calls calls
/-- Every run of every transfer: a request to a peer finds nothing outstanding at it
    and the peer never stopped, and asks for a proper range in bounds; so at most one
    is outstanding, none follows a stop, and an ending cancels exactly the peers with
    an outstanding request. An answer that a peer-only transfer gets at or after its
    floor does not count. -/
theorem requests_bracketed {config : TransferConfig} {size : Nat} {digest : String} {pieces : List String}
    {deadline : Nat} {t : Transfer} (made : new config size digest pieces deadline = some t ∨
      (new config size digest pieces deadline).bind withExclusiveOrigin = some t ∨
      newPeerOnly config size digest pieces deadline = some t)
    {first : Event} (begins : Begins t first) (events : List Event) (later : ∀ e ∈ events, e.starts = false) :
    let log := journal sha256 t (first :: events)
    Requests t t.terms log ∧
      (∀ pre post, log = pre ++ post → ∀ p, (standing t.terms (.peer p) pre).asked.length ≤ 1 ∧
        ((standing t.terms (.peer p) pre).stopped = true → ∀ range, .told (.request p range) ∉ post)) ∧
      Clears t.terms log := by
  have each := run_bracketed sha256 (made_newborn made).1 begins later
  have requests := bracketed_requests each
  exact ⟨requests,fun pre post split p => ⟨requests.one pre post split p,requests.stopped split⟩,bracketed_clears each⟩

/-- A peer-only transfer of one byte with one peer. -/
private def oneByte : Option Transfer := newPeerOnly ⟨1,0⟩ 1 zeroDigest [zeroDigest] 1000
private def onePeer : Event := .startPeerOnly 0 [⟨.peer 1,some 5,some 100⟩] none none []
/-- The only request of an arm, and the cancel when the floor comes. -/
theorem requests_bracketed_at_floor : ∃ t, newPeerOnly ⟨1,0⟩ 1 zeroDigest [zeroDigest] 1000 = some t ∧
    let log := journal (fun _ => []) t [.startPeerOnly 0 [⟨.peer 1,some 5,some 100⟩] none none [],.tick 1000]
    Requests t t.terms log ∧ Clears t.terms log := by
  obtain ⟨t,made⟩ := Option.isSome_iff_exists.mp
    (by decide +kernel : (newPeerOnly ⟨1,0⟩ 1 zeroDigest [zeroDigest] 1000).isSome = true)
  have mode := (peerOnly_newborn made).2.1
  have begins : Begins t onePeer := .peerOnly mode
  have held := requests_bracketed (fun _ => []) (.inr (.inr made)) begins [.tick 1000] (by simp [Event.starts])
  exact ⟨t,made,held.1,held.2.2⟩
/-- An answer at the floor ends an arm before it is looked at: its peer is cancelled
    although it has just answered. -/
theorem answer_at_floor_cancelled : ∃ t, newPeerOnly ⟨1,0⟩ 1 zeroDigest [zeroDigest] 1000 = some t ∧
    ¬ Clears { t.terms with counts := fun _ => true } (journal (fun _ => []) t
      [.startPeerOnly 0 [⟨.peer 1,some 5,some 100⟩] none none [],.delivered 1000 (.peer 1) ⟨0,1⟩ [0]]) := by
  obtain ⟨t,made⟩ := Option.isSome_iff_exists.mp (by decide +kernel : oneByte.isSome = true)
  refine ⟨t,made,fun clears => ?_⟩
  have asks : oneByte.map (fun t => (handle (fun _ => []) t onePeer).commands) = some [.request 1 ⟨0,1⟩] := by
    decide +kernel
  have ends : oneByte.map (fun t => (handle (fun _ => []) (handle (fun _ => []) t onePeer).drainCommands.2
      (.delivered 1000 (.peer 1) ⟨0,1⟩ [0])).commands) = some [.cancel 1,.fail] := by decide +kernel
  have length : oneByte.map (fun t => t.terms.length ⟨0,1⟩) = some 1 := by decide +kernel
  rw [made] at asks ends length
  have asks := Option.some.inj asks
  have ends := Option.some.inj ends
  have length : t.terms.length ⟨0,1⟩ = 1 := Option.some.inj length
  have log : journal (fun _ => []) t [onePeer,.delivered 1000 (.peer 1) ⟨0,1⟩ [0]] =
      [.call onePeer,.told (.request 1 ⟨0,1⟩),.call (.delivered 1000 (.peer 1) ⟨0,1⟩ [0])] ++ cancelled [1] ++
        .told .fail :: [] := by
    simp only [journal,told,asks,ends]
    rfl
  have cancels := (clears _ .fail [] log rfl _ [1] rfl).2 1
  simp [standing,Standing.next,length,onePeer] at cancels

end
end Transfer
end RelaySwarm.Transfers
