import RelaySwarm.PacerMoves
import Mathlib.Data.List.Induction

/-!
Every event of the pacer is a sequence of moves, so its accounts are right, its grants come
in turn and its promises are settled in every run (`uploads_paced`).
-/
namespace RelaySwarm.Pacing
variable {ι : Type} {w : World} {maxWaiters : Nat} {s s' : Pacer ι}

/-! ### Parts of an event -/

theorem recordWait_spec (w : World) (row : Row ι) (s : Pacer ι) :
    ∃ (pauses : List (Effect ι)) (calls : Nat) (counts : Counts),
    recordWait w row s = { s with calls := calls, counts := counts, log := pauses ++ s.log } ∧
    (∀ effect ∈ pauses, ∃ t, effect = .now t) ∧ s.calls ≤ calls := by
  unfold recordWait
  by_cases waited : row.waiting = true
  · rw [waited]
    refine ⟨[.now (w.now s.calls)],_,_,rfl,?_,Nat.le_succ _⟩
    intro effect member
    exact ⟨_,List.mem_singleton.mp member⟩
  · refine ⟨[],s.calls,s.counts,?_,fun _ member => (nomatch member),le_rfl⟩
    rw [Bool.not_eq_true] at waited
    rw [waited]
    rfl
theorem ask_move {effect : Effect ι} (quiet : effect.quiet = true) : Move w maxWaiters s (s.ask effect) := by
  refine .quiet rfl rfl rfl rfl (Nat.le_succ _) [effect] rfl ?_
  intro other member
  rwa [List.mem_singleton.mp member]

theorem finish_moves (w : World) (maxWaiters : Nat) (id : Nat) (sent : Bool) (s : Pacer ι) :
    Moves w maxWaiters s (finish id sent s) ∧ (finish id sent s).closed = s.closed ∧
      (finish id sent s).queued = s.queued := by
  unfold finish
  cases first : s.reserved.find? (·.id = id) with
  | none => exact ⟨.refl,rfl,rfl⟩
  | some row =>
    refine ⟨?_,rfl,rfl⟩
    obtain ⟨own,front,back,split,before⟩ := List.find?_eq_some_iff_append.mp first
    have erased : s.reserved.eraseP (·.id = id) = front ++ back := by
      rw [split,List.eraseP_append_right _ (fun other member => by simpa using before other member)]
      rw [List.eraseP_cons_of_pos (by simpa using own)]
    refine .single (.finish row.fixed row (front.map Row.fixed) (back.map Row.fixed) sent ?_ rfl ?_ rfl rfl rfl rfl rfl)
    · show s.reserved.map Row.fixed = _
      rw [split,List.map_append,List.map_cons]
    · show (s.reserved.eraseP (·.id = id)).map Row.fixed = _
      rw [erased,List.map_append]
theorem grant_move (w : World) (maxWaiters : Nat) (s : Pacer ι) {row : Row ι} {rest : List (Row ι)}
    {first : List (Effect ι)} {moment : ℚ}
    (waits : s.queued = row :: rest) (asked : s.log = .validate row.id true :: .now moment :: first)
    (inTime : moment < row.deadline) :
    Move w maxWaiters s (grant w row rest (s.ask (.take row.charge true))) ∧
    (grant w row rest (s.ask (.take row.charge true))).closed = s.closed ∧
    (grant w row rest (s.ask (.take row.charge true))).queued = rest ∧
    s.calls ≤ (grant w row rest (s.ask (.take row.charge true))).calls := by
  obtain ⟨pauses,calls,counts,waited,pause,later⟩ :=
    recordWait_spec w row { s.ask (.take row.charge true) with queued := rest }
  have later : s.calls ≤ calls := le_trans (Nat.le_succ _) later
  unfold grant
  dsimp only
  rw [waited]
  refine ⟨?_,rfl,rfl,later⟩
  refine .grant row.fixed row (rest.map Row.fixed) ?_ rfl ?_ rfl rfl later pauses first moment asked inTime
    rfl pause rfl
  · show s.queued.map Row.fixed = _
    rw [waits,List.map_cons]
  · show (s.reserved ++ [_]).map Row.fixed = _
    rw [List.map_append]
    rfl

section
variable [DecidableEq ι]

theorem remove_moves (w : World) (maxWaiters : Nat) (row : Row ι) (reason : Reason) (s : Pacer ι) :
    Moves w maxWaiters s (remove w row reason s) ∧ (remove w row reason s).closed = s.closed ∧
    (remove w row reason s).queued.Sublist s.queued ∧ s.calls ≤ (remove w row reason s).calls := by
  unfold remove
  split
  · exact ⟨.refl,rfl,List.Sublist.refl _,le_rfl⟩
  · rename_i found
    obtain ⟨held,first,id⟩ := Option.map_eq_some_iff.mp (not_not.mp found)
    obtain ⟨own,front,back,split,before⟩ := List.find?_eq_some_iff_append.mp first
    have erased : s.queued.eraseP (·.link = row.link) = front ++ back := by
      rw [split,List.eraseP_append_right _ (fun other member => by simpa using before other member)]
      rw [List.eraseP_cons_of_pos (by simpa using own)]
    obtain ⟨pauses,calls,counts,waited,pause,later⟩ :=
      recordWait_spec w row { s with queued := s.queued.eraseP (·.link = row.link) }
    dsimp only
    rw [waited]
    refine ⟨?_,rfl,?_,later⟩
    · have told : Move w maxWaiters s { s with
          calls := calls, counts := counts.count reason, log := .refuse reason :: (pauses ++ s.log) } := by
        refine .quiet rfl rfl rfl rfl later (.refuse reason :: pauses) rfl ?_
        intro effect member
        rcases List.mem_cons.mp member with rfl | member
        · rfl
        · obtain ⟨t,rfl⟩ := pause effect member
          rfl
      refine (Relation.ReflTransGen.single told).tail ?_
      refine .drop held.fixed row (front.map Row.fixed) (back.map Row.fixed) ?_ ?_ rfl rfl rfl rfl rfl id.symm
      · show s.queued.map Row.fixed = _
        rw [split,List.map_append,List.map_cons]
      · show (s.queued.eraseP (·.link = row.link)).map Row.fixed = _
        rw [erased,List.map_append]
    · exact List.eraseP_sublist
theorem remove_first {row : Row ι} {rest : List (Row ι)} {reason : Reason} (first : s.queued = row :: rest) :
    (remove w row reason s).queued = rest := by
  obtain ⟨pauses,calls,counts,waited,_,_⟩ :=
    recordWait_spec w row { s with queued := s.queued.eraseP (·.link = row.link) }
  unfold remove
  rw [if_neg (by simp [first])]
  dsimp only
  rw [waited]
  show s.queued.eraseP (·.link = row.link) = rest
  rw [first,List.eraseP_cons_of_pos (by simp)]
/-! ### Pumps -/

/-- A pump is a sequence of moves, and leaves no row whose deadline had passed when it
    began: the one it leaves first was in time, and the others have later deadlines. -/
theorem pumpRows_moves (rows : List (Row ι)) : ∀ {s : Pacer ι}, Fair w maxWaiters s → s.queued = rows →
    Moves w maxWaiters s (pumpRows w rows s) ∧ (pumpRows w rows s).closed = s.closed ∧
      s.calls ≤ (pumpRows w rows s).calls ∧
    ∀ row ∈ (pumpRows w rows s).waits, w.now s.calls < row.deadline := by
  induction rows with
  | nil =>
    intro s fair queue
    refine ⟨.refl,rfl,le_rfl,?_⟩
    intro row member
    unfold pumpRows Pacer.waits at member
    rw [queue] at member
    cases member
  | cons row rest ih =>
    intro s fair queue
    have again : ∀ {next : Pacer ι}, Moves w maxWaiters s next → next.closed = s.closed → next.queued = rest →
        s.calls ≤ next.calls →
        Moves w maxWaiters s (pumpRows w rest next) ∧ (pumpRows w rest next).closed = s.closed ∧
          s.calls ≤ (pumpRows w rest next).calls ∧
        ∀ row ∈ (pumpRows w rest next).waits, w.now s.calls < row.deadline := by
      intro next moves closed queue later
      obtain ⟨more,same,calls,due⟩ := ih (moves_fair fair moves) queue
      refine ⟨moves.trans more,same.trans closed,le_trans later calls,?_⟩
      exact fun row member => lt_of_le_of_lt (w.forward later) (due row member)
    have asked : Move w maxWaiters s (s.ask (.now (w.now s.calls))) := ask_move rfl
    unfold pumpRows
    dsimp only
    split_ifs with exceeds invalid short
    · obtain ⟨moves,closed,_,later⟩ := remove_moves w maxWaiters row .expired (s.ask (.now (w.now s.calls)))
      exact again (.head asked moves) closed (remove_first queue) (le_trans (Nat.le_succ _) later)
    · have checked : Move w maxWaiters _ ((s.ask (.now (w.now s.calls))).ask
          (.validate row.id (w.validate (s.ask (.now (w.now s.calls))).calls))) :=
        ask_move rfl
      obtain ⟨moves,closed,_,later⟩ := remove_moves w maxWaiters row .cancelled
        ((s.ask (.now (w.now s.calls))).ask (.validate row.id (w.validate (s.ask (.now (w.now s.calls))).calls)))
      refine again (.head asked (.head checked moves)) closed (remove_first queue) (le_trans ?_ later)
      show s.calls ≤ s.calls + 1 + 1
      omega
    · have told : ∀ effect ∈ [Effect.delay row.charge,.now (w.now (s.calls + 3)),.take row.charge false,
          .validate row.id (w.validate (s.calls + 1)),
            .now (w.now s.calls)], (effect : Effect ι).quiet = true := by simp [Effect.quiet]
      rw [Bool.not_eq_true'] at short
      refine ⟨.single (.quiet ?_ rfl rfl rfl ?_ _ ?_ told),rfl,?_,?_⟩
      · show (_ :: rest).map Row.fixed = s.queued.map Row.fixed
        rw [queue]
        rfl
      · exact Nat.le_add_right s.calls 5
      · rw [short]
        rfl
      · exact Nat.le_add_right s.calls 5
      · intro other member
        have sorted := fair.timely.sorted
        have same : s.waits = row.fixed :: rest.map Row.fixed := by
          unfold Pacer.waits
          rw [queue,List.map_cons]
        rw [same] at sorted
        rcases List.mem_cons.mp member with rfl | later
        · exact lt_of_not_ge exceeds
        · exact lt_of_lt_of_le (lt_of_not_ge exceeds) ((List.pairwise_cons.mp sorted).1 other later)
    · rw [Bool.not_eq_true',Bool.not_eq_false] at invalid short
      have checked : Move w maxWaiters (s.ask (.now (w.now s.calls)))
          ((s.ask (.now (w.now s.calls))).ask (.validate row.id true)) :=
        ask_move rfl
      obtain ⟨move,closed,queue,later⟩ := grant_move w maxWaiters
        ((s.ask (.now (w.now s.calls))).ask (.validate row.id true)) queue rfl (lt_of_not_ge exceeds)
      rw [short,invalid]
      refine again ((Relation.ReflTransGen.single asked).tail checked |>.tail move) closed queue (le_trans ?_ later)
      show s.calls ≤ s.calls + 1 + 1
      omega
/-- A closed pacer has no rows that wait. -/
def Shut (s : Pacer ι) : Prop := s.closed = true → s.queued = []
theorem pump_moves (fair : Fair w maxWaiters s) (shut : Shut s) :
    Moves w maxWaiters s (pump w s) ∧ (pump w s).closed = s.closed ∧ Shut (pump w s) := by
  unfold pump
  split
  · rename_i closed
    refine ⟨.single (.pumped s.calls rfl rfl rfl rfl rfl rfl le_rfl ?_),rfl,shut⟩
    intro row member
    unfold Pacer.waits at member
    rw [shut closed] at member
    cases member
  · rename_i opened
    have idle : Move w maxWaiters s { s with timer := none } :=
      .quiet rfl rfl rfl rfl le_rfl [] rfl (fun _ member => nomatch member)
    obtain ⟨moves,closed,later,due⟩ := pumpRows_moves s.queued (move_fair fair idle) rfl
    refine ⟨(Relation.ReflTransGen.head idle moves).tail (.pumped s.calls rfl rfl rfl rfl rfl rfl later due),closed,?_⟩
    intro shut'
    exact absurd (closed.symm.trans shut') opened

/-! ### Events -/

theorem removeAll_moves (w : World) (maxWaiters : Nat) (rows : List (Row ι)) : ∀ s : Pacer ι,
    Moves w maxWaiters s (rows.foldl (fun s row => remove w row .cancelled s) s) ∧
    (rows.foldl (fun s row => remove w row .cancelled s) s).closed = s.closed ∧
    (rows.foldl (fun s row => remove w row .cancelled s) s).queued.Sublist s.queued ∧
    (s.queued = rows → (rows.foldl (fun s row => remove w row .cancelled s) s).queued = []) := by
  induction rows with
  | nil => exact fun s => ⟨.refl,rfl,List.Sublist.refl _,id⟩
  | cons row rest ih =>
    intro s
    obtain ⟨moves,closed,sublist,_⟩ := remove_moves w maxWaiters row .cancelled s
    obtain ⟨more,same,fewer,absent⟩ := ih (remove w row .cancelled s)
    exact ⟨moves.trans more,same.trans closed,fewer.trans sublist,fun queue => absent (remove_first queue)⟩
omit [DecidableEq ι] in
theorem cancelAll_moves (w : World) (maxWaiters : Nat) (rows : List (Row ι)) : ∀ s : Pacer ι,
    Moves w maxWaiters s (rows.foldl (fun s row => cancelReserved row s) s) ∧
    (rows.foldl (fun s row => cancelReserved row s) s).closed = s.closed ∧
    (rows.foldl (fun s row => cancelReserved row s) s).queued = s.queued := by
  induction rows with
  | nil => exact fun s => ⟨.refl,rfl,rfl⟩
  | cons row rest ih =>
    intro s
    have counted : Move w maxWaiters s
        ({ s with counts := { s.counts with cancelled := s.counts.cancelled + 1 } }.tell (.abort row.id)) := by
      refine .quiet rfl rfl rfl rfl le_rfl [.abort row.id] rfl ?_
      intro effect member
      rw [List.mem_singleton.mp member]
      rfl
    obtain ⟨moves,closed,queue⟩ := finish_moves w maxWaiters row.id false
      ({ s with counts := { s.counts with cancelled := s.counts.cancelled + 1 } }.tell (.abort row.id))
    obtain ⟨more,same,unchanged⟩ := ih (cancelReserved row s)
    exact ⟨(Relation.ReflTransGen.head counted moves).trans more,same.trans closed,unchanged.trans queue⟩
theorem cancel_moves (fair : Fair w maxWaiters s) (link : Option ι)
    (shut : s.closed = true → link = none ∨ s.queued = []) :
    Moves w maxWaiters s (cancel w link s) ∧ (cancel w link s).closed = s.closed ∧ Shut (cancel w link s) := by
  unfold cancel
  dsimp only
  obtain ⟨dropped,closed,sublist,all⟩ :=
    removeAll_moves w maxWaiters (s.queued.filter (fun row => link.all (row.link = ·))) s
  generalize (s.queued.filter (fun row => link.all (row.link = ·))).foldl (fun s row => remove w row .cancelled s) s =
    next at *
  obtain ⟨finished,same,queue⟩ :=
    cancelAll_moves w maxWaiters (next.reserved.filter (fun row => link.all (row.link = ·))) next
  generalize (next.reserved.filter (fun row => link.all (row.link = ·))).foldl (fun s row => cancelReserved row s)
    next = last at *
  have empty : Shut last := by
    intro closed'
    rw [queue]
    rcases shut (by rw [← closed,← same,closed']) with rfl | already
    · exact all (List.filter_eq_self.mpr (fun _ _ => rfl)).symm
    · rw [already] at sublist
      exact List.sublist_nil.mp sublist
  obtain ⟨pumped,kept,shut⟩ := pump_moves (moves_fair fair (dropped.trans finished)) empty
  exact ⟨(dropped.trans finished).trans pumped,kept.trans (same.trans closed),shut⟩
omit [DecidableEq ι] in
theorem enqueue_move (link : ι) (geometry : Geometry) (free : ∀ row ∈ s.queued ++ s.reserved, row.link ≠ link)
    (room : s.queued.length < maxWaiters) : Move w maxWaiters s (enqueue w link geometry s) := by
  refine .arrive ⟨s.nextId,link,geometry.key,geometry.size,geometry.charge,geometry.range,w.now s.calls,
    w.now s.calls + waitMs,false,false⟩
    ?_ rfl rfl rfl rfl rfl rfl rfl rfl ?_ ?_
  · show (s.queued ++ [_]).map Row.fixed = s.queued.map Row.fixed ++ [_]
    rw [List.map_append]
    rfl
  · intro other member
    unfold Pacer.waits Pacer.holds at member
    rw [← List.map_append] at member
    obtain ⟨row,inside,rfl⟩ := List.mem_map.mp member
    exact free row inside
  · unfold Pacer.waits
    rwa [List.length_map]
theorem acquire_moves (fair : Fair w maxWaiters s) (shut : Shut s) (link : ι) (geometry : Geometry) :
    Moves w maxWaiters s (acquire w maxWaiters link geometry s) ∧
      (acquire w maxWaiters link geometry s).closed = s.closed ∧
    Shut (acquire w maxWaiters link geometry s) := by
  have refused : ∀ next : Pacer ι, Move w maxWaiters next (refuseAcquire next) := by
    intro next
    refine .quiet rfl rfl rfl rfl le_rfl [.refuse .refused] rfl ?_
    intro effect member
    rw [List.mem_singleton.mp member]
    rfl
  unfold acquire
  split
  · exact ⟨.single (refused s),rfl,shut⟩
  · rename_i allowed
    simp only [Bool.or_eq_true,List.any_eq_true,decide_eq_true_eq,not_or,not_exists,not_and,Nat.not_le] at allowed
    obtain ⟨⟨⟨opened,queued⟩,reserved⟩,room⟩ := allowed
    have free : ∀ row ∈ s.queued ++ s.reserved, row.link ≠ link := by
      intro row member
      rcases List.mem_append.mp member with waits | holds
      · exact queued row waits
      · exact reserved row holds
    have joins : ∀ next : Pacer ι, Moves w maxWaiters s next → next.closed = s.closed → next.queued = s.queued →
        next.reserved = s.reserved →
        Moves w maxWaiters s (pump w (enqueue w link geometry next)) ∧
          (pump w (enqueue w link geometry next)).closed = s.closed ∧
        Shut (pump w (enqueue w link geometry next)) := by
      intro next moves closed queue holds
      rw [← queue] at room
      rw [← queue,← holds] at free
      have joined := moves.tail (enqueue_move link geometry free room)
      obtain ⟨pumped,kept,shut⟩ :=
        pump_moves (moves_fair fair joined) (fun closed' => absurd (closed.symm.trans closed') opened)
      exact ⟨joined.trans pumped,kept.trans closed,shut⟩
    have delayed : Move w maxWaiters s (s.ask (.delay geometry.charge)) := ask_move rfl
    split
    · exact joins s .refl rfl rfl rfl
    · split
      · exact ⟨.single (refused s),rfl,shut⟩
      · dsimp only
        split
        · exact ⟨(Relation.ReflTransGen.single delayed).tail (refused _),rfl,shut⟩
        · exact joins _ (.single delayed) rfl rfl rfl
theorem stop_moves (fair : Fair w maxWaiters s) : Moves w maxWaiters s (stop w s) ∧ (stop w s).closed = true ∧
    Shut (stop w s) := by
  have closing : Move w maxWaiters s { s with closed := true } :=
    .quiet rfl rfl rfl rfl le_rfl [] rfl (fun _ member => nomatch member)
  obtain ⟨moves,closed,shut⟩ := cancel_moves (move_fair fair closing) none (fun _ => .inl rfl)
  exact ⟨(Relation.ReflTransGen.head closing moves).tail
    (.quiet rfl rfl rfl rfl le_rfl [] rfl (fun _ member => nomatch member)),closed,shut⟩
theorem step_moves (fair : Fair w maxWaiters s) (shut : Shut s) (event : Event ι) :
    Moves w maxWaiters s (step w maxWaiters s event) ∧ (s.closed = true → (step w maxWaiters s event).closed = true) ∧
    Shut (step w maxWaiters s event) := by
  have kept : ∀ {next : Pacer ι}, Moves w maxWaiters s next ∧ next.closed = s.closed ∧ Shut next →
      Moves w maxWaiters s next ∧ (s.closed = true → next.closed = true) ∧ Shut next :=
    fun done => ⟨done.1,fun closed => done.2.1.trans closed,done.2.2⟩
  cases event with
  | acquire link geometry => exact kept (acquire_moves fair shut link geometry)
  | finish id sent =>
    obtain ⟨moves,closed,queue⟩ := finish_moves w maxWaiters id sent s
    exact kept ⟨moves,closed,fun closed' => queue.trans (shut (closed.symm.trans closed'))⟩
  | cancel link => exact kept (cancel_moves fair link (fun closed => .inr (shut closed)))
  | recheck => exact kept (pump_moves fair shut)
  | stop =>
    obtain ⟨moves,closed,shut⟩ := stop_moves fair
    exact ⟨moves,fun _ => closed,shut⟩
  | timer =>
    show _ ∧ _ ∧ Shut (if s.timer.isSome then pump w s else s)
    dsimp only [step]
    split
    · exact kept (pump_moves fair shut)
    · exact ⟨.refl,id,shut⟩
  | microtask =>
    show _ ∧ _ ∧ Shut (if 0 < s.microtasks then pump w { s with microtasks := s.microtasks - 1 } else s)
    dsimp only [step]
    split
    · have fired : Move w maxWaiters s { s with microtasks := s.microtasks - 1 } :=
        .quiet rfl rfl rfl rfl le_rfl [] rfl (fun _ member => nomatch member)
      obtain ⟨moves,closed,shut'⟩ := pump_moves (move_fair fair fired) shut
      exact kept ⟨.head fired moves,closed,shut'⟩
    · exact ⟨.refl,id,shut⟩
theorem run_fair (w : World) (maxWaiters : Nat) (events : List (Event ι)) :
    Fair w maxWaiters (run w maxWaiters events) ∧ Shut (run w maxWaiters events) ∧
    (.stop ∈ events → (run w maxWaiters events).closed = true) := by
  induction events using List.reverseRecOn with
  | nil => exact ⟨create_fair,fun closed => (nomatch closed),fun member => (nomatch member)⟩
  | append_singleton events event ih =>
    obtain ⟨fair,shut,stopped⟩ := ih
    unfold run at fair shut stopped ⊢
    rw [List.foldl_append]
    obtain ⟨moves,closed,shut'⟩ := step_moves fair shut event
    refine ⟨moves_fair fair moves,shut',?_⟩
    intro member
    rcases List.mem_append.mp member with before | last
    · exact closed (stopped before)
    · rw [← List.mem_singleton.mp last]
      exact (stop_moves fair).2.1

/-- What holds of a pacer, whatever its surroundings answer. The tokens that were taken and
    not given back are the charges of the rows that have theirs and of those that were sent.
    A row is finished once, given back or sent. Grants come in the order of arrival, before
    all rows that wait. A link has one row at most, and no more rows wait than are allowed.
    A promise is settled once, unless its row waits, with a grant only as `Allowed` says.
    It is settled once a pump has begun after its deadline. -/
structure Paced (w : World) (maxWaiters : Nat) (s : Pacer ι) : Prop where
  balance : taken s.log = given s.log + ((s.reserved.map (·.charge)).sum + spent s.log)
  finishedOnce : (finished s.log).Nodup
  finishedGranted : ∀ id ∈ finished s.log, id ∈ granted s.log
  arrivals : acquired s.log = (List.range s.nextId).reverse
  order : (granted s.log).Pairwise (· > ·)
  first : ∀ id ∈ granted s.log, ∀ row ∈ s.queued, id < row.id
  single : ((s.queued ++ s.reserved).map (·.link)).Nodup
  few : s.queued.length ≤ maxWaiters
  settledOnce : (settled s.log).Nodup
  waits : ∀ id, id ∈ settled s.log ↔ id ∈ acquired s.log ∧ id ∉ s.queued.map (·.id)
  allowed : ∀ row earlier, .resolve row true :: earlier <:+ s.log → Allowed row earlier
  due : ∀ id link queuedAt, .acquire id link queuedAt ∈ s.log → queuedAt + waitMs ≤ w.now s.pumpedAt →
    id ∈ settled s.log

omit [DecidableEq ι] in
theorem fair_paced (fair : Fair w maxWaiters s) : Paced w maxWaiters s := by
  obtain ⟨placed,promised,paid,timely,granted,numbered⟩ := fair
  have ids : s.waits.map (·.id) = s.queued.map (·.id) := List.map_map
  have early : ∀ id, id ∈ acquired s.log ↔ id < s.nextId := by
    intro id
    rw [numbered.arrivals,List.mem_reverse,List.mem_range]
  have settles : ∀ id, id ∈ settled s.log ↔ id ∈ acquired s.log ∧ id ∉ s.queued.map (·.id) := by
    intro id
    rw [early,← ids]
    exact promised.all id
  refine ⟨?_,paid.once,paid.granted,numbered.arrivals,promised.order,?_,?_,?_,promised.once,settles,granted.allowed,?_⟩
  · have charges : s.holds.map (·.charge) = s.reserved.map (·.charge) := List.map_map
    rw [← charges]
    exact paid.balance
  · exact fun id member row inside => promised.first id member row.fixed (List.mem_map_of_mem inside)
  · have links : (s.waits ++ s.holds).map (·.link) = (s.queued ++ s.reserved).map (·.link) := by
      unfold Pacer.waits Pacer.holds
      rw [← List.map_append,List.map_map]
      rfl
    rw [← links]
    exact placed.single
  · have few := placed.few
    unfold Pacer.waits at few
    rwa [List.length_map] at few
  · intro id link queuedAt told passed
    refine (settles id).mpr ⟨List.mem_filterMap.mpr ⟨_,told,rfl⟩,?_⟩
    intro waits
    rw [← ids] at waits
    obtain ⟨row,inside,own⟩ := List.mem_map.mp waits
    have fixed := timely.deadline row inside
    rw [numbered.named id link queuedAt told row inside own] at fixed
    have due := timely.due row inside
    rw [fixed] at due
    exact absurd passed (not_le_of_gt due)

/-- Every run of the pacer is paced, and all promises are settled once it has stopped. -/
theorem uploads_paced (w : World) (maxWaiters : Nat) (events : List (Event ι)) :
    Paced w maxWaiters (run w maxWaiters events) ∧
    (.stop ∈ events → ∀ id ∈ acquired (run w maxWaiters events).log, id ∈ settled (run w maxWaiters events).log) := by
  obtain ⟨fair,shut,stopped⟩ := run_fair w maxWaiters events
  refine ⟨fair_paced fair,?_⟩
  intro stops id member
  refine ((fair_paced fair).waits id).mpr ⟨member,?_⟩
  rw [shut (stopped stops)]
  exact List.not_mem_nil
end

end RelaySwarm.Pacing
