import RelaySwarm.TransferBracket

/-!
No source is asked again for what it is already sending. Hand-outs and acts keep
every lane without a piece twice (`Single`); only the endgame gives pieces without
asking who has them, and it does so to an idle peer, or to origin when every peer in
use has work. So a mixed transfer asks twice exactly when origin still has one of
the last pieces at such a moment (`Refetches`). With an exclusive origin there is
no endgame, and no two sources have the same piece (`Apart`).
-/
namespace RelaySwarm.Transfers
open Pieces Planning
namespace Transfer

variable {t t' : Transfer} {now n : Nat} {s : Source}
/-- A command asks for no piece that a related source was asked for and has not
    answered. -/
def Clear (related : Source → Source → Prop) (terms : Terms) (pre : List Entry) (c : Command) : Prop :=
  ∀ s range, c.asks s = some range → ∀ s', related s s' → ∀ other ∈ (standing terms s' pre).asked,
    ∀ i ∈ range.indices, i ∉ other.indices

/-! ### Steps -/

theorem Give.single (given : Give t t') (ready : Ready t) (single : Single t) : Single t' := by
  have unheld : ∀ {s lane ranges}, t.lanes.get? s = some lane → Fit t lane ranges → ∀ other,
      t.lanes.get? s = some other → ∀ i ∈ indices ranges, i ∉ indices other.work := by
    intro s lane ranges found fit other here i member
    rw [found] at here
    cases here
    exact fit.unheld i member
  cases given with
  | notes quiet => exact quiet.thins.single single
  | gives found _ now fit finishAt _ =>
    exact (fit.grows ready.orderly found now finishAt).single single fit.once (unheld found fit)
  | tries found _ now fit finishAt _ =>
    exact ((fit.grows ready.orderly found now finishAt).marked _).single single fit.once (unheld found fit)
  | issues found _ now =>
    exact (issue_grows found now (ready.orderly.within _ _ found)).single single List.nodup_nil (by simp)
  | yields claimed => exact (claimOrigin_thins t claimed).single single
theorem Act.single (act : Act t t') (ready : Ready t) (single : Single t) : Single t' := by
  cases act with
  | give given => exact given.single ready single
  | @retires p command => exact (retire_thins (t.push command) (.peer p)).single (fun s lane => single s lane)
theorem Entered.thins {sha256 : List UInt8 → Digest} {t u : Transfer} {e : Event} (orderly : Orderly t)
    (entered : Entered sha256 t e u) : Thins t u := by
  cases entered with
  | tick | progress | late | unasked | short | unused => exact (Quiet.refl t).thins
  | fails | wrong => exact retire_thins t _
  | @spoiled _ source _ _ range bytes found flying =>
    rw [(response_facts sha256 orderly found flying bytes).1]
    exact fun s lane here => answered_thins t source range s lane here
  | @answered _ source _ _ range bytes found flying =>
    obtain ⟨_,_,frame⟩ := credited_frame (response sha256 t source range bytes) source
    rw [frame,(response_facts sha256 orderly found flying bytes).1]
    exact fun s lane here => answered_thins t source range s lane here
theorem single_of_empty (empty : ∀ s lane, t.lanes.get? s = some lane → lane.work = []) : Single t := by
  intro s lane found
  rw [empty s lane found]
  exact List.nodup_nil

/-! ### The endgame -/

/-- A lane with a request in flight has one of the endgame's pieces and is behind its
    projection. -/
def lagging (t : Transfer) (now : Nat) : Prop := ∃ lane ∈ t.lanes.values, lane.inFlight ≠ [] ∧
  (∃ i ∈ t.endgamePieces, lane.holds i) ∧ lane.finishAt ≤ now
/-- A tick before the floor comes to its endgame with a lagging lane and every peer
    in use at work, while origin still has one of the last pieces. -/
def Refetches (t : Transfer) (now : Nat) : Prop := t.finished = false ∧ now < t.floorAt ∧
  (t.atEndgame now).lagging now ∧ (∀ entry ∈ (t.atEndgame now).livePeers, ¬ entry.2.idle) ∧
    ∃ lane, (t.atEndgame now).lanes.get? .origin = some lane ∧ ∃ i ∈ (t.atEndgame now).endgamePieces, lane.holds i

theorem lagging_iff : t.lagging now ↔ ¬ (t.endgamePieces = [] ∨ ∀ lane ∈ t.lanes.values,
    lane.inFlight = [] ∨ (∀ index ∈ t.endgamePieces, ¬ lane.holds index) ∨ (now : ℚ) < lane.finishAt) := by
  unfold lagging
  constructor
  · rintro ⟨lane,member,flying,⟨i,last,holds⟩,behind⟩ (none | quiet)
    · rw [none] at last; cases last
    · rcases quiet lane member with idle | free | ahead
      · exact flying idle
      · exact free i last holds
      · exact absurd ahead (not_lt.mpr behind)
  · intro noisy
    simp only [not_or,not_forall] at noisy
    obtain ⟨_,lane,member,flying,holds,behind⟩ := noisy
    simp only [not_not,exists_prop] at holds
    exact ⟨lane,member,flying,holds,not_lt.mp behind⟩
theorem endgameTarget_origin (mixed : t.peerOnly = false) (lags : t.lagging now)
    (working : ∀ entry ∈ t.livePeers, ¬ entry.2.idle) : t.endgameTarget now = some .origin := by
  unfold endgameTarget
  rw [if_neg (lagging_iff.mp lags),if_neg (by simp [mixed])]
  have none : t.livePeers.filter (fun entry => entry.2.idle) = [] := by
    rw [List.filter_eq_nil_iff]
    intro entry member
    simpa using working entry member
  rw [none]
  rfl
theorem endgameTarget_lagging (chosen : t.endgameTarget now = some s) :
    t.lagging now := by
  rw [lagging_iff]
  unfold endgameTarget at chosen
  split_ifs at chosen with quiet
  all_goals exact quiet
theorem endgame_grows (ready : Ready t) (chosen : t.endgameTarget now = some s)
    {lane : Lane} (found : t.lanes.get? s = some lane) : ∃ lane', (t.endgame now).lanes.get? s = some lane' ∧
      indices lane'.work = indices lane.work ++ t.endgamePieces := by
  have held := (endgame_induction ready (P := fun ranges u => ∃ lane', u.lanes.get? s = some lane' ∧
    indices lane'.work ++ indices ranges = indices lane.work ++ t.endgamePieces) chosen
    (fun u range rest ready' used within held => ?_) ⟨lane,found,by rw [indices_runs]⟩).1
  · obtain ⟨lane',after,same⟩ := held
    exact ⟨lane',after,by simpa [indices_nil] using same⟩
  · obtain ⟨before,lies,same⟩ := held
    have grows : Grows u (giveTo now s u range) s range.indices :=
      giveTo_grows ready' used now (fun r member => within r (by simp_all))
    obtain ⟨old,new,atOld,atNew,_,_,pieces,_⟩ := grows.here
    rw [lies] at atOld
    cases atOld
    exact ⟨new,atNew,by rw [pieces,List.append_assoc,← indices_cons]; exact same⟩

/-! ### The tick that asks origin again -/

theorem moveAssignments_others (now : Nat) (assignments : List Assignment)
    (differs : ∀ a ∈ assignments, s ≠ a.source) : ∀ t : Transfer,
      (assignments.foldl (moveAssignment now) t).lanes.get? s = t.lanes.get? s := by
  induction assignments with
  | nil => intro t; rfl
  | cons a rest ih =>
    intro t
    rw [List.foldl_cons,ih (fun b member => differs b (by simp [member]))]
    have other := differs a (by simp)
    unfold moveAssignment
    cases t.lanes.get? a.source with
    | none => rfl
    | some lane =>
      dsimp only
      rw [issue_others _ now other]
      exact OrderedMap.get?_modify_of_ne _ _ other
theorem rebalance_origin (orderly : Orderly t) (shared : t.exclusiveOrigin = false) (now : Nat) :
    (t.rebalanceOrigin now).lanes.get? .origin = t.lanes.get? .origin := by
  rcases rebalanceOrigin_cases t now with same | ⟨origin,planned,_,_,found,moved,same⟩
  · rw [same]
  obtain ⟨input,peers,rfl,staffed,spare,_⟩ := movedPlan_split moved
  rw [same,if_neg (by simp [shared])]
  refine moveAssignments_others now _ (fun a member own => ?_) t
  obtain ⟨p,listed,source⟩ := (split_proper input staffed).2 a member
  obtain ⟨entry,live,_,estimate⟩ := spare p listed
  obtain ⟨here,peer,_⟩ := mem_livePeers.mp live
  have key : a.source = entry.1 := by rw [source,estimate,orderly.keyed _ _ here]
  rw [← key,← own] at peer
  cases peer
theorem tick_rebalances (ready : Ready t) (mixed : t.peerOnly = false) (early : now < t.floorAt) :
    t.tick now = ((t.atEndgame now).endgame now).rebalanceOrigin now := by
  unfold tick
  rw [if_neg (by simp [ready.running]),if_neg (by simp [mixed]),if_neg (by omega)]
  exact judge_judged now t.watched ready mixed
theorem refetches_twice (ready : Ready t) (mixed : t.peerOnly = false)
    (refetches : Refetches t now) : ¬ Single (t.tick now) := by
  obtain ⟨_,early,lags,working,lane,found,i,last,holds⟩ := refetches
  have before := judged_acts now t.watched ready mixed
  have ready' : Ready (t.atEndgame now) := before.ready ready
  have chosen := endgameTarget_origin (before.peerOnly.trans mixed) lags working
  obtain ⟨shared,_⟩ := endgamePieces_shared (endgameTarget_some chosen)
  obtain ⟨lane',after,pieces⟩ := endgame_grows ready' chosen found
  obtain ⟨ended,works⟩ := endgame_ready ready' now
  intro single
  rw [tick_rebalances ready mixed early] at single
  have origin := single .origin lane' (by
    rw [rebalance_origin ended.orderly (works.exclusive.trans shared)]
    exact after)
  rw [pieces,List.nodup_append'] at origin
  exact origin.2.2 (Lane.holds_iff.mp holds).2 last
/-- An endgame that does not ask origin again gives its pieces to a source without
    them. -/
theorem endgame_free
    (fair : ¬ (t.lagging now ∧ (∀ entry ∈ t.livePeers, ¬ entry.2.idle) ∧
      ∃ lane, t.lanes.get? .origin = some lane ∧ ∃ i ∈ t.endgamePieces, lane.holds i))
    (chosen : t.endgameTarget now = some s) {lane : Lane} (found : t.lanes.get? s = some lane) {i : Nat}
    (last : i ∈ t.endgamePieces) : ¬ lane.holds i := by
  intro holds
  rcases endgameTarget_cases chosen with ⟨other,here,_,idle,_⟩ | ⟨rfl,_,working⟩
  · rw [found] at here
    cases here
    have member := (Lane.holds_iff.mp holds).2
    rw [Lane.work,idle.1,idle.2] at member
    cases member
  · exact fair ⟨endgameTarget_lagging chosen,working,lane,found,i,last,holds⟩

/-! ### Requests on the wire -/

section
variable {o : Transfer} {log : List Entry} {related : Source → Source → Prop}

theorem issue_clear (agrees : Agrees o.terms log t) (each : Each (Clear related o.terms) (log ++ t.told))
    (single : Single (t.issue now s))
    (apart : ∀ s', related s s' → s' ≠ s → ∀ i ∈ indices ((t.issue now s).flight s),
      i ∉ indices ((t.issue now s).flight s')) : Each (Clear related o.terms) (log ++ (t.issue now s).told) := by
  obtain ⟨sent,flights,commands⟩ := issue_sends t now s
  have once : (indices (t.flight s ++ sent)).Nodup := by
    have flight := flights s
    rw [if_pos rfl] at flight
    rw [← flight]
    cases found : (t.issue now s).lanes.get? s with
    | none => simp [Transfer.flight,found,indices]
    | some lane =>
      rw [flight_found found]
      refine (single s lane found).sublist ?_
      rw [Lane.work,indices_append]
      exact List.sublist_append_left _ _
  rw [told,commands,List.map_append,← List.append_assoc]
  refine each.tells _ (fun before c rest split => ?_)
  obtain ⟨asked,left,named,rfl,heads⟩ := List.map_eq_append_iff.mp split
  cases left with
  | nil => simp at heads
  | cons range left =>
    rw [List.map_cons,List.cons.injEq] at heads
    obtain ⟨rfl,_⟩ := heads
    intro s' range' asks s'' relates other outstanding i member
    have same : s' = s ∧ range' = range := by
      cases s with
      | origin =>
        simp only [requestOf,Command.asks] at asks
        split_ifs at asks with own
        exact ⟨own,(Option.some.inj asks).symm⟩
      | peer p =>
        simp only [requestOf,Command.asks] at asks
        split_ifs at asks with own
        exact ⟨own,(Option.some.inj asks).symm⟩
    obtain ⟨rfl,rfl⟩ := same
    change other ∈ (standing o.terms s'' (log ++ t.told ++ (asked.map (requestOf s')).map .told)).asked at outstanding
    rw [standing_requests] at outstanding
    by_cases own : s'' = s'
    · subst own
      rw [if_pos rfl,agrees.asked] at outstanding
      rw [named,← List.append_assoc,indices_append,indices_cons,List.nodup_append'] at once
      intro again
      refine once.2.2 (mem_indices.mpr ?_) (List.mem_append_left _ member)
      obtain ⟨low,high⟩ := mem_range_indices.mp again
      exact ⟨other,outstanding,low,high⟩
    · rw [if_neg own,agrees.asked] at outstanding
      intro again
      refine apart s'' relates own i ?_ ?_
      · rw [flights,if_pos rfl,named]
        obtain ⟨low,high⟩ := mem_range_indices.mp member
        exact mem_indices.mpr ⟨range',by simp,low,high⟩
      · rw [flights,if_neg own]
        obtain ⟨low,high⟩ := mem_range_indices.mp again
        exact mem_indices.mpr ⟨other,outstanding,low,high⟩
theorem Clear.silent {pre : List Entry} {c : Command} (none : ∀ s, c.asks s = none) : Clear related o.terms pre c := by
  intro s range asks
  rw [none s] at asks
  cases asks

/-- No related source is sending what a source is sending. -/
def Parted (related : Source → Source → Prop) (t : Transfer) : Prop := ∀ s s', related s s' → s' ≠ s →
  ∀ i ∈ indices (t.flight s), i ∉ indices (t.flight s')
theorem parted_eq (t : Transfer) : Parted Eq t := fun _ _ same differs => absurd same.symm differs
/-- No related source was asked again, and the lanes agree with the journal. -/
structure Once (related : Source → Source → Prop) (o : Transfer) (log : List Entry) (t : Transfer) : Prop where
  agrees : Agrees o.terms log t
  single : Single t
  each : Each (Clear related o.terms) (log ++ t.told)

theorem Once.give (once : Once related o log t) (ready : Ready t) (given : Give t t')
    (parted : Parted related t') : Once related o log t' := by
  have agrees := once.agrees.give given
  have single := given.single ready once.single
  refine ⟨agrees,single,?_⟩
  cases given with
  | notes quiet =>
    have said : t'.told = t.told := by rw [told,quiet.commands]; rfl
    rw [said]
    exact once.each
  | @gives s _ _ _ now ranges _ finishAt _ =>
    exact issue_clear (once.agrees.extend s ranges finishAt) once.each single (parted s)
  | @tries s _ _ _ now i _ finishAt _ =>
    exact issue_clear (once.agrees.extend s [⟨i,i+1⟩] finishAt) once.each (fun s' lane here => single s' lane here)
      (fun s' relates differs => parted s s' relates differs)
  | @issues s _ _ _ now => exact issue_clear once.agrees once.each single (parted s)
  | yields => exact once.each
theorem Once.act (once : Once related o log t) (ready : Ready t) (act : Act t t')
    (parted : Parted related t') : Once related o log t' := by
  cases act with
  | give given => exact once.give ready given parted
  | @retires p command stops flying =>
    have act : Act t ((t.push command).retire (.peer p)).1 := .retires stops flying
    refine ⟨once.agrees.act act,act.single ready once.single,?_⟩
    obtain ⟨_,same⟩ := retire_frame (t.push command) (.peer p)
    have said : ((t.push command).retire (.peer p)).1.told = t.told ++ [.told command] := by
      rw [same]
      exact told_push t command
    rw [said,← List.append_assoc]
    refine each_append.mpr ⟨once.each,fun c is => ?_⟩
    cases is
    refine Clear.silent (fun s => ?_)
    rcases stops with rfl | rfl | rfl <;> rfl
theorem Once.entered {sha256 : List UInt8 → Digest} {t u : Transfer} {e : Event} (once : Once related o log t)
    (ready : Ready t) (silent : t.commands = []) (entered : Entered sha256 t e u) :
    Once related o (log ++ [.call e]) u := by
  refine ⟨once.agrees.entered ready silent entered,(entered.thins ready.orderly).single once.single,?_⟩
  have none : u.told = t.told := by rw [told,entered.silent ready.orderly]; rfl
  have empty : t.told = [] := by rw [told,silent]; rfl
  have each := once.each
  rw [empty,List.append_nil] at each
  rw [none,empty,List.append_nil]
  exact each.call e
theorem Once.drained (once : Once related o log t) : Once related o (log ++ t.told) t.drainCommands.2 := by
  refine ⟨once.agrees.drained,once.single,?_⟩
  have none : t.drainCommands.2.told = [] := rfl
  rw [none,List.append_nil]
  exact once.each
theorem Once.ended (once : Once related o log t) {last : Command} (ends : last.ends = true) :
    Each (Clear related o.terms) (log ++ (t.told ++ cancelled t.sending ++ [.told last])) := by
  rw [← List.append_assoc,← List.append_assoc]
  refine each_append.mpr ⟨?_,fun c is => ?_⟩
  · have same : cancelled t.sending = (t.sending.map .cancel).map .told := by simp [cancelled]
    rw [same]
    refine once.each.tells _ (fun before c rest split => ?_)
    have member : c ∈ t.sending.map Command.cancel := by rw [split]; simp
    obtain ⟨p,_,rfl⟩ := List.mem_map.mp member
    exact Clear.silent (fun s => rfl)
  · cases is
    refine Clear.silent (fun s => ?_)
    cases last with
    | request | fetchOrigin | cancel | abandon | ban => cases ends
    | deliver | fail => rfl
theorem Opened.once {t u : Transfer} (opened : Opened n t u) {first : Event}
    (begins : Begins t first) : Once related t [.call first] u := by
  have none : u.told = [] := by rw [told,opened.commands]; rfl
  refine ⟨opened.agrees begins,single_of_empty (fun s lane found => ?_),?_⟩
  · simp [Lane.work,(opened.idle s lane found).1,(opened.idle s lane found).2.1]
  · rw [none,List.append_nil]
    exact (Each.nil _).call first
theorem Once.endgame (once : Once Eq o log t) (ready : Ready t)
    (free : ∀ s, t.endgameTarget now = some s → ∀ lane, t.lanes.get? s = some lane →
      ∀ i ∈ t.endgamePieces, i ∉ indices lane.work) : Once Eq o log (t.endgame now) := by
  cases chosen : t.endgameTarget now with
  | none => rw [endgame_idle chosen]; exact once
  | some s =>
    refine (endgame_induction ready (P := fun ranges u => Once Eq o log u ∧ (indices ranges).Nodup ∧
      ∀ lane, u.lanes.get? s = some lane → ∀ i ∈ indices ranges, i ∉ indices lane.work) chosen
      (fun u range rest ready' used within held => ?_)
      ⟨once.give ready (.notes (markDuplicated_quiet t)) (parted_eq _),
        by rw [indices_runs]; exact endgamePieces_nodup t,
        fun lane lies => by rw [indices_runs]; exact free s chosen lane lies⟩).1.1
    obtain ⟨once',distinct,unheld⟩ := held
    rw [indices_cons] at distinct unheld
    obtain ⟨first,rest',apart⟩ := List.nodup_append'.mp distinct
    have grows : Grows u (giveTo now s u range) s range.indices :=
      giveTo_grows ready' used now (fun r member => within r (by simp_all))
    have single := grows.single once'.single first (fun lane lies i member => unheld lane lies i (by simp [member]))
    refine ⟨⟨once'.agrees.giveTo now s range,single,?_⟩,rest',?_⟩
    · exact issue_clear (once'.agrees.extend s [range] id) once'.each single (parted_eq _ s)
    · intro lane lies i later held
      obtain ⟨old,new,atOld,atNew,_,_,pieces,_⟩ := grows.here
      rw [atNew] at lies
      cases lies
      rw [pieces,List.mem_append] at held
      rcases held with before | given
      · exact unheld old atOld i (by simp [later]) before
      · exact apart given later
end

section
variable (sha256 : List UInt8 → Digest)

/-- A run whose ticks do not ask origin again: its journal asks no source for what it
    is sending, and no lane has a piece twice. -/
theorem run_once (newborn : Newborn n t) {first : Event}
    (begins : Begins t first) {events : List Event} (later : ∀ e ∈ events, e.starts = false)
    (fair : ∀ pre now post, events = pre ++ .tick now :: post → ¬ Refetches (after sha256 t (first :: pre)) now) :
    Single (after sha256 t (first :: events)) ∧ Each (Clear Eq t.terms) (journal sha256 t (first :: events)) := by
  have endgame : ∀ log u now, Rested n u → now < u.floorAt → ¬ Refetches u now → Ready (u.atEndgame now) →
      Once Eq t log (u.atEndgame now) → Once Eq t log ((u.atEndgame now).endgame now) := by
    intro log u now rested early honest ready once
    refine once.endgame ready (fun s chosen lane found i last held => ?_)
    have use : lane.retired = false := by
      by_contra gone
      rw [ready.orderly.gone s lane found (by simpa using gone)] at held
      cases held
    exact endgame_free (fun both => honest ⟨rested.ready.running,early,both⟩) chosen found last
      (Lane.holds_iff.mpr ⟨use,held⟩)
  rcases journal_induction sha256 newborn begins (P := Once Eq t) (C := fun u e => ∀ now, e = .tick now →
    ¬ Refetches u now)
    (fun u opened _ => opened.once begins)
    (fun log t' e u rested silent _ once enters => once.entered rested.ready silent enters)
    (fun log u v ready once act => once.act ready act (parted_eq v))
    (fun log u now rested early honest => endgame log u now rested early (honest now rfl))
      (fun log u once => once.drained) later
    (fun pre e post split now is => fair pre now post (by rw [split,is]))
      with ⟨_,silent,once⟩ | ⟨concluded,before,u,t',calls,once,ready,concluded',ending,same⟩
  · have each := once.each
    rw [told,silent] at each
    exact ⟨once.single,by simpa using each⟩
  · obtain ⟨last,ends,said⟩ := ending_told ready concluded' ending
    refine ⟨single_of_empty (run_over sha256 newborn begins later concluded),?_⟩
    rw [same,said]
    exact (once.ended ends).calls calls
/-- A mixed transfer asks no source for what it is already sending, keeps every piece
    once on a lane and duplicates its last pieces only to a source without them, if
    and only if no tick comes to its endgame with every peer at work while origin still
    has one of the last pieces. -/
theorem asked_once_iff {config : TransferConfig} {size : Nat} {digest : String} {pieces : List String}
    {deadline : Nat} {t : Transfer} (made : new config size digest pieces deadline = some t ∨
      (new config size digest pieces deadline).bind withExclusiveOrigin = some t)
    {first : Event} (begins : Begins t first) (events : List Event) (later : ∀ e ∈ events, e.starts = false) :
    ((∀ pre post, events = pre ++ post → ∀ s lane, (after sha256 t (first :: pre)).lanes.get? s = some lane →
        (indices (lane.inFlight.map (·.1) ++ lane.queue)).Nodup) ∧
      Each (Clear Eq t.terms) (journal sha256 t (first :: events)) ∧
      ∀ pre now post, events = pre ++ .tick now :: post →
        let u := after sha256 t (first :: pre)
        u.finished = false → now < u.floorAt → ∀ s, (u.atEndgame now).endgameTarget now = some s →
          ∀ lane, (u.atEndgame now).lanes.get? s = some lane → ∀ i ∈ (u.atEndgame now).endgamePieces, ¬ lane.holds i) ↔
      ∀ pre now post, events = pre ++ .tick now :: post → ¬ Refetches (after sha256 t (first :: pre)) now := by
  have newborn : Newborn pieces.length t ∧ t.peerOnly = false := by
    rcases made with plain | exclusive
    · exact ⟨(new_newborn plain).1,(new_newborn plain).2.1⟩
    · exact ⟨(exclusive_newborn exclusive).1,(exclusive_newborn exclusive).2.1⟩
  obtain ⟨newborn,mixed⟩ := newborn
  have part : ∀ {pre post}, events = pre ++ post → ∀ e ∈ pre, e.starts = false :=
    fun split e member => later e (by simp [split,member])
  constructor
  · rintro ⟨single,_⟩ pre now post split refetches
    rcases run_between sha256 newborn begins (part split) with concluded | rested
    · rw [refetches.1] at concluded
      cases concluded
    have mode := (Ground.mode (run_ground sha256 newborn begins (part split))).trans mixed
    have twice := refetches_twice rested.ready mode refetches
    refine twice (fun s lane found => ?_)
    have same := after_concat sha256 t (first :: pre) (.tick now)
    refine single (pre ++ [.tick now]) post (by simp [split]) s lane ?_
    rw [← List.cons_append,same]
    exact found
  · intro fair
    refine ⟨fun pre post split => (run_once sha256 newborn begins (part split) ?_).1,
      (run_once sha256 newborn begins later fair).2,?_⟩
    · exact fun a now b cut => fair a now (b ++ post) (by simp [split,cut])
    · intro pre now post split u running early s chosen lane found i last
      exact endgame_free (fun both => fair pre now post split ⟨running,early,both⟩) chosen found last
/-- A peer fails, and origin is asked for its piece: nothing is asked twice. -/
theorem asked_once_after_failure : ∃ t, new ⟨1,0⟩ 1 zeroDigest [zeroDigest] 1000 = some t ∧
    Each (Clear Eq t.terms) (journal (fun _ => []) t
      [.start 0 [⟨.peer 1,some 5,some 100⟩] ⟨.origin,none,none⟩ none none [],.failed 3 (.peer 1)]) := by
  obtain ⟨t,made⟩ := Option.isSome_iff_exists.mp
    (by decide +kernel : (new ⟨1,0⟩ 1 zeroDigest [zeroDigest] 1000).isSome = true)
  have begins : Begins t (.start 0 [⟨.peer 1,some 5,some 100⟩] ⟨.origin,none,none⟩ none none []) :=
    .start (fun _ => rfl)
  refine ⟨t,made,
    ((asked_once_iff (fun _ => []) (.inl made) begins [.failed 3 (.peer 1)] (by simp [Event.starts])).mpr ?_).2.1⟩
  intro pre now post split
  rcases pre with _ | ⟨e,_ | ⟨e',rest⟩⟩ <;> simp at split
/-- A transfer without peers: its only request lags, and the endgame asks origin for
    the same piece while the first request is outstanding. -/
theorem origin_asked_twice : ∃ t, new ⟨1,0⟩ 1 zeroDigest [zeroDigest] 1000 = some t ∧
    (∃ lane, (after (fun _ => []) t [.start 0 [] ⟨.origin,some 1,some 65536⟩ none none [],.tick 5]).lanes.get? .origin =
      some lane ∧ ¬ (indices (lane.inFlight.map (·.1) ++ lane.queue)).Nodup) ∧
    ¬ Each (Clear Eq t.terms) (journal (fun _ => []) t
      [.start 0 [] ⟨.origin,some 1,some 65536⟩ none none [],.tick 5]) := by
  obtain ⟨t,made⟩ := Option.isSome_iff_exists.mp
    (by decide +kernel : (new ⟨1,0⟩ 1 zeroDigest [zeroDigest] 1000).isSome = true)
  have held : (new ⟨1,0⟩ 1 zeroDigest [zeroDigest] 1000).map (fun t => ((after (fun _ => []) t
      [.start 0 [] ⟨.origin,some 1,some 65536⟩ none none [],.tick 5]).lanes.get? .origin).map (fun lane =>
        indices lane.work)) = some (some [0,0]) := by decide +kernel
  have first : (new ⟨1,0⟩ 1 zeroDigest [zeroDigest] 1000).map (fun t => (handle (fun _ => []) t
      (.start 0 [] ⟨.origin,some 1,some 65536⟩ none none [])).commands) = some [.fetchOrigin ⟨0,1⟩] := by decide +kernel
  have second : (new ⟨1,0⟩ 1 zeroDigest [zeroDigest] 1000).map (fun t => (handle (fun _ => []) (handle (fun _ => []) t
      (.start 0 [] ⟨.origin,some 1,some 65536⟩ none none [])).drainCommands.2 (.tick 5)).commands) =
        some [.fetchOrigin ⟨0,1⟩] := by decide +kernel
  rw [made] at held first second
  have first := Option.some.inj first
  have second := Option.some.inj second
  refine ⟨t,made,?_,fun each => ?_⟩
  · obtain ⟨lane,found,pieces⟩ := Option.map_eq_some_iff.mp (Option.some.inj held)
    refine ⟨lane,found,fun once => ?_⟩
    rw [Lane.work] at pieces
    rw [pieces] at once
    simp at once
  · have again := each [.call (.start 0 [] ⟨.origin,some 1,some 65536⟩ none none []),.told (.fetchOrigin ⟨0,1⟩),
      .call (.tick 5)] (.fetchOrigin ⟨0,1⟩) [] (by simp only [journal,told,first,second]; rfl)
    exact again .origin ⟨0,1⟩ rfl .origin rfl ⟨0,1⟩ (by simp [standing,Standing.next]) 0 (by decide) (by decide)

end
end Transfer
end RelaySwarm.Transfers
