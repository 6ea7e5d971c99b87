import RelaySwarm.TransferOnce

/-!
The allowance of a probe. While a peer is a probe, the pieces it was asked for, the
pieces its lane has queued and what is left of its allowance make at most one
(`Allowed`): a hand-out to a probe uses the allowance, an issue moves a queued piece to
the asked ones, and nothing else touches either. The endgame of a mixed transfer alone
looks at no allowance.
-/
namespace RelaySwarm.Transfers
open Pieces Planning

variable {s : Source} {p : Nat} {t t' : Transfer}
def Command.pieces (s : Source) (c : Command) : List Nat := ((c.asks s).map PieceRange.indices).getD []
def asked (s : Source) (cs : List Command) : List Nat := cs.flatMap (Command.pieces s)

theorem asked_append (s : Source) (a b : List Command) : asked s (a ++ b) = asked s a ++ asked s b := by
  simp [asked]
theorem asked_requests (s s' : Source) (sent : List PieceRange) :
    asked s' (sent.map (Transfer.requestOf s)) = if s' = s then indices sent else [] := by
  induction sent with
  | nil => simp [asked,indices]
  | cons range rest ih =>
    have one : Command.pieces s' (Transfer.requestOf s range) = if s' = s then range.indices else [] := by
      cases s with
      | origin => by_cases own : s' = .origin <;> simp [Transfer.requestOf,Command.pieces,Command.asks,own]
      | peer p => by_cases own : s' = .peer p <;> simp [Transfer.requestOf,Command.pieces,Command.asks,own]
    rw [List.map_cons]
    unfold asked at ih ⊢
    rw [List.flatMap_cons,one,ih]
    split_ifs <;> simp [indices]
theorem asked_silent {cs : List Command} (none : ∀ c ∈ cs, c.asks s = none) : asked s cs = [] := by
  unfold asked
  rw [List.flatMap_eq_nil_iff]
  intro c member
  simp [Command.pieces,none c member]
theorem Command.stops_asks {c : Command} (stops : c.stops p) (s : Source) : c.asks s = none := by
  rcases stops with rfl | rfl | rfl <;> rfl

namespace Transfer

def queued (t : Transfer) (s : Source) : Nat := ((t.lanes.get? s).map (fun lane => (indices lane.queue).length)).getD 0
theorem queued_found {lane : Lane} (found : t.lanes.get? s = some lane) :
    t.queued s = (indices lane.queue).length := by
  simp [queued,found]
theorem queued_same (same : t'.lanes.get? s = t.lanes.get? s) : t'.queued s = t.queued s := by
  simp only [queued,same]
theorem Grows.queued {extra : List Nat} (grows : Grows t t' s extra) {sent : List PieceRange}
    (flights : t'.flight s = t.flight s ++ sent) : t'.queued s + (indices sent).length = t.queued s + extra.length := by
  obtain ⟨lane,lane',found,found',_,_,pieces,_⟩ := grows.here
  rw [queued_found found,queued_found found']
  rw [flight_found found,flight_found found'] at flights
  have lengths := congrArg List.length pieces
  simp only [Lane.work,indices_append,List.length_append,flights] at lengths
  omega

/-- While the peer is a probe: what the commands so far asked it for, what it has queued
    and what is left of its allowance make at most one piece. -/
structure Allowed (p : Nat) (cs : List Command) (t : Transfer) : Prop where
  probe : .peer p ∈ t.probePeers
  one : (asked (.peer p) (cs ++ t.commands)).length + t.queued (.peer p) +
    (if .peer p ∈ t.probeAvailable then 1 else 0) ≤ 1

section
variable {p : Nat} {cs : List Command}

theorem Allowed.other (allowed : Allowed p cs t) (probePeers : t'.probePeers = t.probePeers)
    (available : .peer p ∈ t'.probeAvailable → .peer p ∈ t.probeAvailable)
    (queue : t'.queued (.peer p) ≤ t.queued (.peer p))
    {more : List Command} (told : t'.commands = t.commands ++ more)
    (silent : asked (.peer p) more = []) : Allowed p cs t' := by
  have one := allowed.one
  refine ⟨by rw [probePeers]; exact allowed.probe,?_⟩
  rw [told,← List.append_assoc,asked_append,silent,List.append_nil]
  by_cases left : .peer p ∈ t'.probeAvailable
  · rw [if_pos left]
    rw [if_pos (available left)] at one
    omega
  · rw [if_neg left]
    omega
theorem Allowed.quiet (allowed : Allowed p cs t) (quiet : Quiet t t') : Allowed p cs t' := by
  refine allowed.other quiet.probePeers (fun left => by rwa [quiet.probeAvailable] at left) (le_of_eq ?_)
    (show _ = t.commands ++ [] by rw [quiet.commands,List.append_nil]) rfl
  cases found : t'.lanes.get? (.peer p) with
  | none =>
    have none : t.lanes.get? (.peer p) = none := by
      cases before : t.lanes.get? (.peer p) with
      | none => rfl
      | some lane =>
        obtain ⟨lane',after',_⟩ := quiet.after before
        rw [found] at after'
        cases after'
    simp [Transfer.queued,found,none]
  | some lane' =>
    obtain ⟨lane,before,same⟩ := quiet.before found
    rw [queued_found found,queued_found before,(Lane.post_eq same).2.1]
theorem Allowed.grows {t t' : Transfer} (allowed : Allowed p cs t) {s : Source} (differs : s ≠ .peer p)
    {extra : List Nat}
    (grows : Grows t t' s extra) {sent : List PieceRange} (told : t'.commands = t.commands ++ sent.map (requestOf s))
    (probePeers : t'.probePeers = t.probePeers)
    (available : .peer p ∈ t'.probeAvailable → .peer p ∈ t.probeAvailable) : Allowed p cs t' := by
  refine allowed.other probePeers available (le_of_eq (queued_same (grows.others _ (Ne.symm differs)))) told ?_
  rw [asked_requests,if_neg (Ne.symm differs)]
theorem Allowed.spends (allowed : Allowed p cs t) {extra : List Nat} (grows : Grows t t' (.peer p) extra)
    {sent : List PieceRange} (told : t'.commands = t.commands ++ sent.map (requestOf (.peer p)))
    (flights : t'.flight (.peer p) = t.flight (.peer p) ++ sent) (probePeers : t'.probePeers = t.probePeers)
    (spent : extra.length + (if .peer p ∈ t'.probeAvailable then 1 else 0) ≤
      if .peer p ∈ t.probeAvailable then 1 else 0) : Allowed p cs t' := by
  have one := allowed.one
  have moved := grows.queued flights
  refine ⟨by rw [probePeers]; exact allowed.probe,?_⟩
  rw [told,← List.append_assoc,asked_append,asked_requests,if_pos rfl,List.length_append]
  omega
theorem Allowed.give (allowed : Allowed p cs t) (ready : Ready t) (given : Give t t') : Allowed p cs t' := by
  cases given with
  | notes quiet => exact allowed.quiet quiet
  | @gives s lane found use now ranges fit finishAt unprobed =>
    obtain ⟨sent,_,told⟩ := issue_sends (t.extendQueue s ranges finishAt) now s
    have differs : s ≠ .peer p := fun own => unprobed (own ▸ allowed.probe)
    refine allowed.grows differs (fit.grows ready.orderly found now finishAt) told
      (issue_probePeers _ now s) (fun left => ?_)
    rwa [issue_probeAvailable] at left
  | @tries s lane found use now i fit finishAt given' =>
    obtain ⟨sent,flights,told⟩ := issue_sends (t.extendQueue s [⟨i,i+1⟩] finishAt) now s
    have grows := (fit.grows ready.orderly found now finishAt).marked (t.probeAvailable.erase s)
    by_cases own : s = .peer p
    · subst own
      refine allowed.spends grows told ?_ (issue_probePeers _ now _) ?_
      · have flight := flights (.peer p)
        rw [if_pos rfl,extendQueue_flight] at flight
        exact flight
      · rw [if_neg (by simp),if_pos given']
        simp [indices,PieceRange.indices]
    · exact allowed.grows own grows told (issue_probePeers _ now s) (fun left => Finset.mem_of_mem_erase left)
  | @issues s lane found use now =>
    obtain ⟨sent,flights,told⟩ := issue_sends t now s
    have grows := issue_grows found now (ready.orderly.within s lane found)
    have available : (t.issue now s).probeAvailable = t.probeAvailable := issue_probeAvailable t now s
    by_cases own : s = .peer p
    · subst own
      refine allowed.spends grows told ?_ (issue_probePeers t now _) (by rw [available]; simp)
      rw [flights,if_pos rfl]
    · exact allowed.grows own grows told (issue_probePeers t now s) (fun left => by rwa [available] at left)
  | yields claimed =>
    refine allowed.other rfl id (le_of_eq (queued_same ?_)) (show _ = t.commands ++ [] by simp [claimOrigin]) rfl
    unfold claimOrigin
    dsimp only
    rw [OrderedMap.get?_modify_of_ne _ _ (by simp)]
theorem retire_queued (t : Transfer) (s s' : Source) : (t.retire s).1.queued s' ≤ t.queued s' := by
  rcases retire_cases t s with ⟨_,same⟩ | ⟨lane,found,same,_⟩
  · rw [same]
  · rw [same]
    by_cases own : s' = s
    · subst own
      simp [Transfer.queued,OrderedMap.get?_modify_self,found,indices]
    · exact le_of_eq (queued_same (by dsimp only; rw [OrderedMap.get?_modify_of_ne _ _ own]))
theorem Allowed.retire (allowed : Allowed p cs t) (s : Source) : Allowed p cs (t.retire s).1 := by
  have fewer := retire_queued t s (.peer p)
  obtain ⟨lanes,frame⟩ := retire_frame t s
  rw [frame] at fewer ⊢
  exact allowed.other rfl id fewer (show _ = t.commands ++ [] by simp) rfl
theorem Allowed.act (allowed : Allowed p cs t) (ready : Ready t) (act : Act t t') : Allowed p cs t' := by
  cases act with
  | give given => exact allowed.give ready given
  | @retires q command stops _ =>
    have pushed : Allowed p cs (t.push command) :=
      allowed.other rfl id (le_of_eq rfl) (show _ = t.commands ++ [command] from rfl)
        (asked_silent (by simpa using Command.stops_asks stops (.peer p)))
    exact pushed.retire (.peer q)
theorem Allowed.endgame (allowed : Allowed p cs t) (ready : Ready t) {now : Nat}
    (others : ∀ s, t.endgameTarget now = some s → s ∉ t.probePeers) : Allowed p cs (t.endgame now) := by
  cases chosen : t.endgameTarget now with
  | none => rw [endgame_idle chosen]; exact allowed
  | some s =>
    have differs : s ≠ .peer p := fun own => others s chosen (own ▸ allowed.probe)
    refine (endgame_induction ready (P := fun _ u => Allowed p cs u) chosen
      (fun u range rest ready' used within held => ?_)
      (allowed.quiet (markDuplicated_quiet t))).1
    obtain ⟨sent,_,told⟩ := issue_sends (u.extendQueue s [range] id) now s
    refine held.grows differs (giveTo_grows ready' used now (fun r member => within r (by simp_all))) told
      (issue_probePeers _ now s) (fun left => ?_)
    unfold giveTo at left
    rwa [issue_probeAvailable] at left
end

/-! ### What ends a probe -/

theorem Give.probePeers (given : Give t t') : t'.probePeers = t.probePeers := by
  cases given with
  | notes quiet => exact quiet.probePeers
  | gives _ _ now _ finishAt _ => exact issue_probePeers _ now _
  | tries _ _ now _ finishAt _ => exact issue_probePeers _ now _
  | issues _ _ now => exact issue_probePeers _ now _
  | yields claimed => rfl
theorem Acts.probePeers (acts : Acts t t') : t'.probePeers = t.probePeers := by
  induction acts with
  | refl => rfl
  | tail _ act ih =>
    cases act with
    | give given => exact given.probePeers.trans ih
    | retires =>
      obtain ⟨_,frame⟩ := retire_frame (Transfer.push _ _) (.peer _)
      rw [frame]
      exact ih
theorem atEndgame_acts (ready : Ready t) (now : Nat) : Acts t (t.atEndgame now) := by
  cases mode : t.peerOnly with
  | true => rw [atEndgame_peerOnly mode]
  | false => exact judged_acts now t.watched ready mode

section
variable (sha256 : List UInt8 → Digest)

theorem Ending.probePeers (ending : Ending sha256 t t') : t'.probePeers = t.probePeers := by
  cases ending with
  | runs => rfl
  | fails => rfl
  | finishes =>
    unfold finish
    split_ifs <;> rfl
theorem checkPieces_fresh (bytes : List UInt8) (start : Nat) (pieces : List Nat) : ∀ c : Checked, pieces.Nodup →
    (∀ i ∈ pieces, i < c.transfer.verified.length) →
    (pieces.foldl (checkPiece sha256 bytes start) c).fresh = true → c.fresh = true ∨
      ∃ i, c.transfer.isVerified i = false ∧
        (pieces.foldl (checkPiece sha256 bytes start) c).transfer.isVerified i = true := by
  induction pieces with
  | nil => intro c _ _ fresh; exact .inl fresh
  | cons i rest ih =>
    intro c distinct inside fresh
    have within := inside i (by simp)
    have one := checkPiece_checks sha256 bytes start c within
    have length : (checkPiece sha256 bytes start c i).transfer.verified.length = c.transfer.verified.length :=
      (checkPieces_frame sha256 bytes start [i] c).2
    have bound : ∀ j ∈ rest, j < (checkPiece sha256 bytes start c i).transfer.verified.length := fun j member => by
      rw [length]
      exact inside j (by simp [member])
    have later := checkPieces_checks sha256 bytes start rest (checkPiece sha256 bytes start c i)
        (List.nodup_cons.mp distinct).2 bound
    rw [List.foldl_cons] at fresh ⊢
    rcases ih _ (List.nodup_cons.mp distinct).2 bound fresh with early | ⟨j,missing,verified⟩
    · rcases checkPiece_cases sha256 bytes start c i with ⟨_,same⟩ | ⟨missing,_,same⟩ | ⟨_,same⟩
      · rw [same] at early
        exact .inl early
      · refine .inr ⟨i,missing,later.grows i ?_⟩
        rw [same,isVerified_set _ _ _ _ within,if_pos rfl]
      · rw [same] at early
        exact .inl early
    · refine .inr ⟨j,?_,verified⟩
      by_contra old
      rw [one.grows j (by simpa using old)] at missing
      cases missing
theorem answered_verified (ready : Ready t) {now : Nat} {source : Source} {lane : Lane} {sent : Nat}
    {range : PieceRange} {bytes : List UInt8} (found : t.lanes.get? source = some lane)
    (flying : (range,sent) ∈ lane.inFlight) (early : t.peerOnly = true → now < t.floorAt)
    (length : bytes.length = t.rangeLength range) (good : (response sha256 t source range bytes).bad = false) :
    (handle sha256 t (.delivered now source range bytes)).verified =
      (response sha256 t source range bytes).transfer.verified := by
  obtain ⟨sent',first,same⟩ := answered_accepts sha256 ready found flying early length good
  obtain ⟨_,_,frame⟩ := credited_frame (response sha256 t source range bytes) source
  obtain ⟨u,acts,⟨complete,ended⟩ | ⟨_,course⟩⟩ := accept_course sha256 (response_ready sha256 ready found flying bytes)
    (response_used sha256 ready found flying bytes early) sent' first (t.rangeLength range)
  · rw [same,ended]
    have kept : (u.finish sha256).verified = u.verified := by
      unfold finish
      split_ifs <;> rfl
    rw [kept,acts.works.verified,frame]
  · rw [same]
    rcases course with more | ⟨v,more,failing⟩
    · rw [more.works.verified,acts.works.verified,frame]
    · rw [failing]
      show v.verified = _
      rw [more.works.verified,acts.works.verified,frame]
/-- The call is an answer of the peer that verifies a piece. -/
def Proves (t : Transfer) (e : Event) (p : Nat) : Prop := ∃ now range bytes, e = .delivered now (.peer p) range bytes ∧
  ∃ i, t.isVerified i = false ∧ (handle sha256 t e).isVerified i = true
/-- A tick before the floor comes to its endgame and picks a source that is a probe. -/
def Enlarges (t : Transfer) (now : Nat) : Prop := t.finished = false ∧ now < t.floorAt ∧
  ∃ s ∈ t.probePeers, (t.atEndgame now).endgameTarget now = some s
theorem Allowed.entered {t u : Transfer} {cs : List Command} (ready : Ready t) {e : Event}
    (allowed : Allowed p cs t) (unproven : ¬ Proves sha256 t e p)
    (entered : Entered sha256 t e u) : Allowed p cs u := by
  -- An answer leaves the queues and the probes as they were.
  have checked : ∀ {source lane range sent} bytes, t.lanes.get? source = some lane → (range,sent) ∈ lane.inFlight →
      Allowed p cs (response sha256 t source range bytes).transfer := by
    intro source lane range sent bytes found flying
    rw [(response_facts sha256 ready.orderly found flying bytes).1]
    refine allowed.other rfl id (le_of_eq ?_) (show _ = t.commands ++ [] by simp) rfl
    unfold Transfer.queued
    dsimp only
    rw [OrderedMap.get?_modify]
    split_ifs with own
    · cases t.lanes.get? (.peer p) <;> rfl
    · rfl
  cases entered with
  | tick | progress | late | unasked | short | unused => exact allowed
  | fails | wrong => exact allowed.retire _
  | spoiled found flying early length bad => exact checked _ found flying
  | @answered now source lane sent range bytes found flying early length good =>
    have base := checked bytes found flying
    unfold credited
    split_ifs with fresh
    · have differs : source ≠ .peer p := by
        rintro rfl
        refine unproven ⟨now,range,bytes,rfl,?_⟩
        obtain ⟨_,_,_,within,_⟩ := response_facts sha256 ready.orderly found flying bytes
        rcases checkPieces_fresh sha256 bytes (t.pieceRangeBytes range).1 range.indices
          ⟨{ t with lanes := t.lanes.modify (.peer p) (fun lane => lane.answered range) },false,false⟩ List.nodup_range'
          (fun i member => lt_of_lt_of_le (mem_range_indices.mp member).2 within) fresh with no | ⟨i,missing,verified⟩
        · cases no
        · refine ⟨i,missing,?_⟩
          have kept := answered_verified sha256 ready found flying early length good
          simp only [isVerified,kept]
          exact verified
      have one := base.one
      refine ⟨Finset.mem_erase.mpr ⟨Ne.symm differs,base.probe⟩,?_⟩
      have same : (.peer p ∈ ((response sha256 t source range bytes).transfer.endProbe source).probeAvailable) ↔
          .peer p ∈ (response sha256 t source range bytes).transfer.probeAvailable := by
        simp [endProbe,Ne.symm differs]
      simp only [same]
      exact one
    · exact base
/-- The commands a journal tells. -/
def heard (log : List Entry) : List Command := log.filterMap (fun entry => match entry with
  | .told c => some c
  | .call _ => none)
theorem heard_call (log : List Entry) (e : Event) : heard (log ++ [.call e]) = heard log := by
  simp [heard]
theorem heard_told (log : List Entry) (cs : List Command) : heard (log ++ cs.map .told) = heard log ++ cs := by
  simp [heard]
/-- Every run: a peer that is a probe after the start is asked for one piece at most,
    until an answer of its own verifies a piece, unless the endgame picks a probe. -/
theorem probe_asked_once {config : TransferConfig} {size : Nat} {digest : String} {pieces : List String}
    {deadline : Nat} {t : Transfer} (made : new config size digest pieces deadline = some t ∨
      (new config size digest pieces deadline).bind withExclusiveOrigin = some t ∨
      newPeerOnly config size digest pieces deadline = some t)
    {first : Event} (begins : Begins t first) (events : List Event) (later : ∀ e ∈ events, e.starts = false)
    (fair : ∀ pre now post, events = pre ++ .tick now :: post → ¬ Enlarges (after sha256 t (first :: pre)) now)
    {p : Nat} (probe : .peer p ∈ (handle sha256 t first).probePeers)
    (unproven : ∀ pre e post, events = pre ++ e :: post → ¬ Proves sha256 (after sha256 t (first :: pre)) e p) :
    (asked (.peer p) (Shell.run sha256 ⟨t,[]⟩ (first :: events)).emitted).length ≤ 1 := by
  have newborn := (made_newborn made).1
  have opened : ∀ u, Opened pieces.length t u →
      handle sha256 t first = u.assign first.roster.1 (List.range pieces.length) →
      Allowed p (heard [.call first]) u := by
    intro u opened same
    obtain ⟨w,acts,ending⟩ := (opened.course first.roster.1).ending sha256
    rw [← same] at ending
    refine ⟨by rw [← acts.probePeers,← ending.probePeers sha256]; exact probe,?_⟩
    have idle : u.queued (.peer p) = 0 := by
      cases found : u.lanes.get? (.peer p) with
      | none => simp [Transfer.queued,found]
      | some lane => rw [queued_found found,(opened.idle _ lane found).2.1]; rfl
    rw [opened.commands,idle]
    split_ifs <;> simp [asked,heard]
  have heardAll : (Shell.run sha256 ⟨t,[]⟩ (first :: events)).emitted = heard (journal sha256 t (first :: events)) :=
    (journal_emitted sha256 (first :: events) t []).trans (by rw [List.nil_append]; rfl)
  rw [heardAll]
  rcases journal_induction sha256 newborn begins (P := fun log u => Allowed p (heard log) u)
    (C := fun u e => ¬ Proves sha256 u e p ∧ ∀ now, e = .tick now → ¬ Enlarges u now) opened
    (fun log u e v rested _ fine allowed enters => by
      rw [heard_call]
      exact allowed.entered sha256 rested.ready fine.1 enters)
    (fun log u v ready allowed act => allowed.act ready act)
    (fun log u now rested early fine ready allowed => allowed.endgame ready (fun s chosen listed =>
      fine.2 now rfl ⟨rested.ready.running,early,s,
        by rwa [(atEndgame_acts rested.ready now).probePeers] at listed,chosen⟩))
    (fun log u allowed => ⟨allowed.probe,by
      have one := allowed.one
      have told : heard (log ++ u.told) = heard log ++ u.commands := heard_told log u.commands
      rw [told]
      show (asked (.peer p) (heard log ++ u.commands ++ [])).length + u.queued (.peer p) + _ ≤ 1
      rw [List.append_nil]
      exact one⟩) later
    (fun pre e post split => ⟨unproven pre e post split,fun now is => fair pre now post (by rw [split,is])⟩)
    with ⟨_,silent,allowed⟩ | ⟨_,before,u,t',calls,allowed,ready,concluded,ending,same⟩
  · have one := allowed.one
    rw [silent,List.append_nil] at one
    omega
  · obtain ⟨last,ends,said⟩ := ending_told ready concluded ending
    have one := allowed.one
    have told : heard (journal sha256 t (first :: events)) =
        heard before ++ u.commands ++ (u.sending.map .cancel ++ [last]) := by
      rw [same,said]
      simp [heard,cancelled,Transfer.told]
    have silent : asked (.peer p) (u.sending.map .cancel ++ [last]) = [] := by
      refine asked_silent (fun c member => ?_)
      rcases List.mem_append.mp member with cancel | is
      · obtain ⟨q,_,rfl⟩ := List.mem_map.mp cancel
        rfl
      · rw [List.mem_singleton] at is
        subst is
        cases c <;> first | rfl | cases ends
    rw [told,asked_append,silent,List.append_nil]
    omega

private def twoPieces : Option Transfer := new ⟨1,0⟩ 131072 zeroDigest (List.replicate 2 zeroDigest) 1000
private def twoProbes : Event := .start 0 [⟨.peer 1,some 1,some 65536⟩,⟨.peer 2,some 1,some 65536⟩]
  ⟨.origin,some 1,some 65536⟩ none none [1,2]
/-- The first of two probes fails, and the endgame picks origin: it was asked for one piece. -/
theorem probe_asked_once_failing : ∃ t, new ⟨1,0⟩ 131072 zeroDigest (List.replicate 2 zeroDigest) 1000 = some t ∧
    (asked (.peer 1) (Shell.run (fun _ => []) ⟨t,[]⟩ [twoProbes,.failed 3 (.peer 1),.tick 4]).emitted).length ≤ 1 := by
  obtain ⟨t,made⟩ := Option.isSome_iff_exists.mp (by decide +kernel : twoPieces.isSome = true)
  have listed : twoPieces.map (fun t => decide (.peer 1 ∈ (handle (fun _ => []) t twoProbes).probePeers ∧
      ∀ s ∈ (after (fun _ => []) t [twoProbes,.failed 3 (.peer 1)]).probePeers,
        ((after (fun _ => []) t [twoProbes,.failed 3 (.peer 1)]).atEndgame 4).endgameTarget 4 ≠
          some s)) = some true := by
    decide +kernel
  rw [made] at listed
  have listed := of_decide_eq_true (Option.some.inj listed)
  refine ⟨t,made,probe_asked_once (fun _ => []) (.inl made) (.start (fun _ => rfl)) [.failed 3 (.peer 1),.tick 4]
    (by simp [Event.starts]) ?_ listed.1 ?_⟩
  · rintro pre now post split ⟨_,_,s,probe,picked⟩
    rcases pre with _ | ⟨e',_ | ⟨e'',rest⟩⟩ <;> simp at split
    obtain ⟨rfl,rfl,_⟩ := split
    exact listed.2 s probe picked
  · rintro pre e post split ⟨_,_,_,rfl,_⟩
    rcases pre with _ | ⟨e',_ | ⟨e'',rest⟩⟩ <;> simp at split
/-- Two probes and one holder at a time: at the endgame the second probe is idle, and is
    asked for both pieces. -/
theorem probe_asked_twice : ∃ t, new ⟨1,0⟩ 131072 zeroDigest (List.replicate 2 zeroDigest) 1000 = some t ∧
    .peer 2 ∈ (handle (fun _ => []) t twoProbes).probePeers ∧
    (asked (.peer 2) (Shell.run (fun _ => []) ⟨t,[]⟩ [twoProbes,.tick 5]).emitted).length = 2 := by
  obtain ⟨t,made⟩ := Option.isSome_iff_exists.mp (by decide +kernel : twoPieces.isSome = true)
  have evaluated : twoPieces.map (fun t => (decide (.peer 2 ∈ (handle (fun _ => []) t twoProbes).probePeers),
      (asked (.peer 2) (Shell.run (fun _ => []) ⟨t,[]⟩ [twoProbes,.tick 5]).emitted).length)) = some (true,2) := by
    decide +kernel
  rw [made] at evaluated
  have evaluated := Option.some.inj evaluated
  simp only [Prod.mk.injEq] at evaluated
  exact ⟨t,made,of_decide_eq_true evaluated.1,evaluated.2⟩
end
end Transfer
end RelaySwarm.Transfers
