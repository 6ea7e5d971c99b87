import RelaySwarm.PlanOptimum

/-!
Origin takes the tail that the peers cannot finish. Each peer, in the planner's order,
fills up to the piece that it could not take and still be done in time; a peer that is
not yet measured is tried with one piece; what is left goes to origin
(`tail_unfinished`). A short last piece can still fit a peer that stopped at a full one
(`short_piece_fits`).
-/
namespace RelaySwarm.Planning
open Pieces

/-! ### Sane timing -/

variable {v : ℚ} {input : PlanInput}
theorem positive_some {value : Option ℚ} (found : positive value = some v) : 0 < v := by
  have held := (Option.filter_eq_some_iff.mp found).2
  simpa using held
theorem nonNegative_some {value : Option ℚ} (found : nonNegative value = some v) : 0 ≤ v := by
  have held := (Option.filter_eq_some_iff.mp found).2
  simpa using held
theorem median_mem {values : List ℚ} (found : median values = some v) : v ∈ values :=
  (List.mem_insertionSort _).mp (List.mem_of_getElem? found)
/-- Whatever the estimates, a source is planned with a first byte that is not in the past
    and a rate. -/
theorem timed_sane (input : PlanInput) (e : Estimate) : 0 ≤ (timed input e).firstByte ∧ 0 < (timed input e).rate := by
  have floor : (0 : ℚ) < minRate := by norm_num [minRate]
  constructor
  · change 0 ≤ (nonNegative e.firstByteMs).getD ((nonNegative input.sharedFirstByteMs).getD 0)
    cases own : nonNegative e.firstByteMs with
    | some v => exact nonNegative_some own
    | none =>
      cases shared : nonNegative input.sharedFirstByteMs with
      | some v => exact nonNegative_some shared
      | none => exact le_rfl
  · change 0 < (positive e.rate).getD (((median (input.peers.filterMap (fun peer => positive peer.rate))).or
      (positive input.sharedRate)).getD minRate)
    cases own : positive e.rate with
    | some v => exact positive_some own
    | none =>
      cases tested : median (input.peers.filterMap (fun peer => positive peer.rate)) with
      | some v =>
        obtain ⟨peer,_,measured⟩ := List.mem_filterMap.mp (median_mem tested)
        exact positive_some measured
      | none =>
        cases shared : positive input.sharedRate with
        | some v => exact positive_some shared
        | none => exact floor
theorem ranked_sane (input : PlanInput) : Sane (ranked input) := by
  intro source member
  obtain ⟨e,_,rfl⟩ := ranked_timed member
  exact timed_sane input e

/-! ### One peer's turn -/

/-- How many pieces a peer carries: all of them in time, but for a trial of one, and up to
    the piece that would be late. -/
structure Carries (size : Nat) (capacity : ℚ) (trial : Bool) (bytes : Nat) (needed : List Nat)
    (count : Nat) : Prop where
  fits : count = 0 ∨ ((bytes + ((needed.take count).map (pieceBytes size (commitmentPieceSize size))).sum : Nat) : ℚ) ≤
    capacity ∨
    (trial = true ∧ count = 1)
  tried : trial = true → needed ≠ [] → count ≠ 0
  full : ∀ next rest, needed.drop count = next :: rest → capacity <
    (bytes + ((needed.take count).map (pieceBytes size (commitmentPieceSize size))).sum +
      pieceBytes size (commitmentPieceSize size) next : Nat)
theorem carried_carries (size : Nat) (capacity : ℚ) (needed : List Nat) : ∀ (trial : Bool) (bytes : Nat),
    Carries size capacity trial bytes needed (carried size (commitmentPieceSize size) capacity trial bytes needed) := by
  induction needed with
  | nil => intro trial bytes; exact ⟨.inl rfl,fun _ some => absurd rfl some,fun next rest same => by simp at same⟩
  | cons index rest ih =>
    intro trial bytes
    unfold carried
    dsimp only
    split_ifs with late
    · obtain ⟨late,measured⟩ := late
      refine ⟨.inl rfl,fun tried => (by rw [measured] at tried; cases tried),fun next later same => ?_⟩
      rw [List.drop_zero] at same
      cases same
      rw [List.take_zero,List.map_nil,List.sum_nil,Nat.add_zero]
      push_cast
      exact late
    · obtain ⟨fits,_,full⟩ := ih false (bytes + pieceBytes size (commitmentPieceSize size) index)
      generalize carried size (commitmentPieceSize size) capacity false
        (bytes + pieceBytes size (commitmentPieceSize size) index)
        rest = more at fits full ⊢
      rw [Nat.add_comm 1 more]
      refine ⟨.inr ?_,fun _ _ => Nat.succ_ne_zero _,fun next later same => ?_⟩
      · rw [List.take_succ_cons,List.map_cons,List.sum_cons,← Nat.add_assoc]
        rcases fits with none | fits | ⟨tried,_⟩
        · -- Only this piece: it is in time, or it is the trial.
          subst none
          rw [List.take_zero,List.map_nil,List.sum_nil,Nat.add_zero]
          by_cases measured : trial = false
          · left
            have early := not_lt.mp fun late' => late ⟨late',measured⟩
            push_cast
            exact early
          · exact .inr ⟨by simpa using measured,rfl⟩
        · exact .inl fits
        · cases tried
      · rw [List.drop_succ_cons] at same
        rw [List.take_succ_cons,List.map_cons,List.sum_cons,← Nat.add_assoc]
        exact full next later same

/-- A peer's turn: it has at most one assignment, the first of the pieces left; done in
    time, or a trial of one piece; and it could not take the next piece in time. -/
structure Turn (input : PlanInput) (source : Timed) (trial : Bool) (left : List Nat) (mine : List Assignment)
    (rest : List Nat) :
    Prop where
  one : mine.length ≤ 1
  worked : ∀ a ∈ mine, Worked input.size left source a
  dealt : dealt mine ++ rest = left
  timely : ∀ a ∈ mine, a.projectedMs ≤ input.availableMs ∨ (trial = true ∧ (indices a.ranges).length = 1)
  tried : trial = true → left ≠ [] → mine ≠ []
  full : ∀ next later, rest = next :: later → input.availableMs < source.firstByte +
    ((mine.map (·.bytes)).sum + pieceBytes input.size (commitmentPieceSize input.size) next : Nat) / source.rate
theorem beyond_capacity {available firstByte rate : ℚ} {bytes : Nat} (positive : 0 < rate)
    (beyond : max (available - firstByte) 0 * rate < bytes) : available < firstByte + bytes / rate := by
  have least : (available - firstByte) * rate ≤ max (available - firstByte) 0 * rate :=
    mul_le_mul_of_nonneg_right (le_max_left _ _) positive.le
  have past := (lt_div_iff₀ positive).mpr (lt_of_le_of_lt least beyond)
  linarith
theorem within_capacity {available firstByte rate : ℚ} {bytes : Nat} (positive : 0 < rate) (some : 0 < bytes)
    (within : (bytes : ℚ) ≤ max (available - firstByte) 0 * rate) : firstByte + bytes / rate ≤ available := by
  have room := (div_le_iff₀ positive).mpr within
  have more : 0 < (bytes : ℚ) / rate := div_pos (by exact_mod_cast some) positive
  rcases max_choice (available - firstByte) 0 with early | late
  · rw [early] at room
    linarith
  · rw [late] at room
    linarith
theorem bytes_positive {size : Nat} {needed : List Nat} (some : needed ≠ [])
    (within : ∀ index ∈ needed, index * commitmentPieceSize size < size) :
    0 < (needed.map (pieceBytes size (commitmentPieceSize size))).sum := by
  cases needed with
  | nil => exact absurd rfl some
  | cons index rest =>
    have first := pieceBytes_some (pieceSize_pos size) (within index (by simp))
    rw [List.map_cons,List.sum_cons]
    omega
theorem turn_pass {source : Timed} {trial : Bool} {left : List Nat} (positive : 0 < source.rate)
    (carries : Carries input.size (max (input.availableMs - source.firstByte) 0 * source.rate) trial 0 left 0) :
    Turn input source trial left [] left := by
  refine ⟨by simp,by simp,rfl,by simp,fun tried some => absurd rfl (carries.tried tried some),fun next later same => ?_⟩
  have beyond := carries.full next later same
  rw [List.take_zero,List.map_nil,List.sum_nil] at beyond
  exact beyond_capacity positive beyond
/-- A turn that takes the first pieces left. -/
theorem turn_take {source : Timed} {trial : Bool} {left : List Nat} {count : Nat} (positive : 0 < source.rate)
    (some : left ≠ []) (more : count ≠ 0) (within : ∀ index ∈ left, index * commitmentPieceSize input.size < input.size)
    (carries : Carries input.size (max (input.availableMs - source.firstByte) 0 * source.rate) trial 0 left count) :
    Turn input source trial left [⟨source.source,runs (left.take count),
      ((left.take count).map (pieceBytes input.size (commitmentPieceSize input.size))).sum,
      source.firstByte + (((left.take count).map (pieceBytes input.size (commitmentPieceSize input.size))).sum : Nat) /
        source.rate⟩] (left.drop count) := by
  have filled : left.take count ≠ [] := fun none => (List.take_eq_nil_iff.mp none).elim more some
  have bytes := bytes_positive filled fun index member => within index (List.mem_of_mem_take member)
  refine ⟨by simp,?_,?_,?_,fun _ _ => by simp,fun next later same => ?_⟩
  · rintro a member
    rw [List.mem_singleton.mp member]
    exact worked_take source some more (List.Sublist.refl _)
  · simp [dealt,indices_runs]
  · rintro a member
    rw [List.mem_singleton.mp member]
    dsimp only
    rw [indices_runs]
    rcases carries.fits with none | early | ⟨tried,single⟩
    · exact absurd none more
    · rw [Nat.zero_add] at early
      exact .inl (within_capacity positive bytes early)
    · refine .inr ⟨tried,?_⟩
      have length := List.length_pos_iff.mpr some
      rw [List.length_take,single]
      omega
  · have beyond := carries.full next later same
    rw [Nat.zero_add] at beyond
    rw [List.map_singleton,List.sum_singleton]
    exact beyond_capacity positive beyond

/-! ### All the turns -/

/-- The assignments the peers keep and what goes to origin: the peers' pieces come first,
    in the order of the peers, and each peer had its turn at what the ones before it
    left. -/
structure Tail (input : PlanInput) (origin : Timed) (untested : List Source) (peers : List Timed) (needed : List Nat)
    (kept own : List Assignment) : Prop where
  order : (kept.map (·.source)).Sublist (peers.map (·.source))
  dealt : dealt kept ++ Planning.dealt own = needed
  origin : own = [] ∨ ∃ a, own = [a] ∧ Worked input.size needed origin a
  turns : ∀ before source after, peers = before ++ source :: after → ∃ earlier mine behind left,
    kept = earlier ++ mine ++ behind ∧ (earlier.map (·.source)).Sublist (before.map (·.source)) ∧
    (behind.map (·.source)).Sublist (after.map (·.source)) ∧ Planning.dealt earlier ++ left = needed ∧
    Turn input source (untested.contains source.source) left mine (Planning.dealt behind ++ Planning.dealt own)
theorem dealt_append (first second : List Assignment) : dealt (first ++ second) = dealt first ++ dealt second := by
  simp [dealt]
theorem Tail.peer {origin : Timed} {untested : List Source} {peers : List Timed} {needed rest : List Nat}
    {kept own mine : List Assignment} {peer : Timed}
    (turn : Turn input peer (untested.contains peer.source) needed mine rest)
    (tail : Tail input origin untested peers rest kept own) :
    Tail input origin untested (peer :: peers) needed (mine ++ kept) own := by
  have named : (mine.map (·.source)).Sublist [peer.source] := by
    have one := turn.one
    cases mine with
    | nil => simp
    | cons a more =>
      have none : more = [] := List.length_eq_zero_iff.mp (by simpa using one)
      rw [none,List.map_singleton,(turn.worked a (by simp)).named]
  have rest_part : rest.Sublist needed := by
    rw [← turn.dealt]
    exact List.sublist_append_right _ _
  refine ⟨?_,?_,tail.origin.imp_right fun ⟨a,one,worked⟩ => ⟨a,one,worked.widen rest_part⟩,?_⟩
  · rw [List.map_append,List.map_cons]
    exact named.append tail.order
  · rw [dealt_append,List.append_assoc,tail.dealt]
    exact turn.dealt
  · intro before source after same
    cases before with
    | nil =>
      obtain ⟨rfl,rfl⟩ := List.cons.inj same
      refine ⟨[],mine,kept,needed,by simp,by simp,tail.order,rfl,?_⟩
      rw [tail.dealt]
      exact turn
    | cons first before =>
      obtain ⟨rfl,others⟩ := List.cons.inj same
      obtain ⟨earlier,mine',behind,left,parts,ahead,after',handed,turn'⟩ := tail.turns before source after others
      refine ⟨mine ++ earlier,mine',behind,left,by rw [parts]; simp,?_,after',?_,turn'⟩
      · rw [List.map_append,List.map_cons]
        exact named.append ahead
      · rw [dealt_append,List.append_assoc,handed]
        exact turn.dealt
theorem tail_done (input : PlanInput) (origin : Timed) (untested : List Source) (peers : List Timed) :
    Tail input origin untested peers [] [] [] := by
  refine ⟨by simp,rfl,.inl rfl,fun before source after _ => ⟨[],[],[],[],rfl,by simp,by simp,rfl,?_⟩⟩
  exact ⟨by simp,by simp,rfl,by simp,fun _ some => absurd rfl some,fun next later same => by simp [dealt] at same⟩
theorem tailAssignments_tail (input : PlanInput) (origin : Timed) (untested : List Source)
    (peers : List Timed) : ∀ needed,
    Sane peers → (∀ index ∈ needed, index * commitmentPieceSize input.size < input.size) → ∃ kept own,
    tailAssignments input origin untested peers needed = kept ++ own ∧
      Tail input origin untested peers needed kept own := by
  induction peers with
  | nil =>
    intro needed _ _
    unfold tailAssignments
    split_ifs with none
    · rw [none]
      exact ⟨[],[],rfl,tail_done _ _ _ _⟩
    · have whole :=
        @worked_take input.size needed needed origin needed.length none (by simpa using none) (List.Sublist.refl needed)
      rw [List.take_length] at whole
      refine ⟨[],_,rfl,by simp,by simp [dealt,indices_runs],.inr ⟨_,rfl,whole⟩,fun before source after same => ?_⟩
      cases before <;> cases same
  | cons peer peers ih =>
    intro needed sane within
    have rate := (sane peer (by simp)).2
    have sane' : Sane peers := fun source member => sane source (List.mem_cons_of_mem _ member)
    unfold tailAssignments
    split_ifs with none
    · rw [none]
      exact ⟨[],[],rfl,tail_done _ _ _ _⟩
    · have carries := carried_carries input.size (max (input.availableMs - peer.firstByte) 0 * peer.rate) needed
        (untested.contains peer.source) 0
      dsimp only
      generalize carried input.size (commitmentPieceSize input.size)
        (max (input.availableMs - peer.firstByte) 0 * peer.rate)
        (untested.contains peer.source) 0 needed = count at carries ⊢
      split_ifs with zero
      · rw [zero] at carries
        obtain ⟨kept,own,parts,tail⟩ := ih needed sane' within
        exact ⟨kept,own,parts,Tail.peer (turn_pass rate carries) tail⟩
      · obtain ⟨kept,own,parts,tail⟩ :=
          ih (needed.drop count) sane' fun index member => within index (List.mem_of_mem_drop member)
        have turn := turn_take rate none zero within carries
        exact ⟨_,own,by rw [parts]; rfl,Tail.peer turn tail⟩

/-! ### The plan -/

theorem plan_late {e : Estimate} (some : input.needed ≠ []) (offered : input.origin = .some e)
    (late : (split input (ranked input)).late = true) :
    (plan input).assignments = tailAssignments input (timed input e) (untested input) (ranked input) input.needed := by
  have planned := plan_planned some
  generalize plan input = p at planned
  cases planned with
  | alone _ early =>
    rcases early with early | none
    · rw [late] at early
      cases early
    · rw [offered] at none
      cases none
  | tail offered' _ =>
    rw [offered] at offered'
    cases offered'
    rfl
  | nothing _ none =>
    rw [offered] at none
    cases none

/-- For every plan with an origin whose peers alone would be late, over pieces of the
    object: the peers' pieces come first, in the planner's order, and origin's are the
    rest; a measured peer is done in time, a peer on trial gets a piece while any is left,
    and one only when they are not all in time; and no peer could have taken the piece
    behind its own in time, nor the first piece that goes to origin, unless that is the
    short last piece of the object. -/
theorem tail_unfinished (input : PlanInput) (e : Estimate) (offered : input.origin = some e)
    (within : ∀ index ∈ input.needed, index * commitmentPieceSize input.size < input.size)
    (late : (split input (ranked input)).late = true) :
    ∃ kept own, (plan input).assignments = kept ++ own ∧
      Tail input (timed input e) (untested input) (ranked input) input.needed kept own ∧
      ∀ before source after, ranked input = before ++ source :: after → ∃ earlier mine behind left,
        kept = earlier ++ mine ++ behind ∧ dealt earlier ++ left = input.needed ∧
        Turn input source ((untested input).contains source.source) left mine (dealt behind ++ dealt own) ∧
        ∀ first rest, dealt own = first :: rest →
          pieceBytes input.size (commitmentPieceSize input.size) first = commitmentPieceSize input.size →
          input.availableMs < source.firstByte +
            ((mine.map (·.bytes)).sum + pieceBytes input.size (commitmentPieceSize input.size) first : Nat) /
              source.rate := by
  have sane := ranked_sane input
  have made : ∃ kept own, (plan input).assignments = kept ++ own ∧
      Tail input (timed input e) (untested input) (ranked input) input.needed kept own := by
    by_cases none : input.needed = []
    · rw [plan_nothing none,none]
      exact ⟨[],[],rfl,tail_done _ _ _ _⟩
    · rw [plan_late none offered late]
      exact tailAssignments_tail input _ _ _ _ sane within
  obtain ⟨kept,own,parts,tail⟩ := made
  refine ⟨kept,own,parts,tail,fun before source after same => ?_⟩
  obtain ⟨earlier,mine,behind,left,parts',_,_,handed,turn⟩ := tail.turns before source after same
  have positive := (sane source (by rw [same]; simp)).2
  refine ⟨earlier,mine,behind,left,parts',handed,turn,fun first rest given whole => ?_⟩
  -- The piece that ended its own turn is no larger than a full one.
  cases next : dealt behind ++ dealt own with
  | nil => simp [given] at next
  | cons stopped later =>
    have full := turn.full stopped later next
    have smaller := pieceBytes_le input.size (commitmentPieceSize input.size) stopped
    refine lt_of_lt_of_le full (add_le_add_right ?_ _)
    refine div_le_div_of_nonneg_right ?_ positive.le
    rw [whole]
    exact_mod_cast Nat.add_le_add_left smaller _

/-- A full piece for each of two peers, and a short piece that the first has room for. -/
def roomy : PlanInput :=
  ⟨150000,[0,1,2],[⟨.peer 1,some 0,some 100⟩,⟨.peer 2,some 0,some 70⟩],some ⟨.origin,some 0,some 1000⟩,none,none,1000,3⟩
theorem short_piece_fits : (split roomy (ranked roomy)).late = true ∧
    ∃ a ∈ (plan roomy).assignments, ∃ b ∈ (plan roomy).assignments,
    a.source = .peer 1 ∧ b.source = .origin ∧ dealt [b] = [2] ∧
    ((a.bytes + pieceBytes 150000 (commitmentPieceSize 150000) 2 : Nat) : ℚ) / 100 ≤ roomy.availableMs := by
  constructor
  · decide +kernel
  · decide +kernel
theorem tail_unfinished_roomy : ∃ kept own, (plan roomy).assignments = kept ++ own ∧
    Tail roomy (timed roomy ⟨.origin,some 0,some 1000⟩) (untested roomy) (ranked roomy) [0,1,2] kept own := by
  obtain ⟨kept,own,parts,tail,_⟩ := tail_unfinished roomy ⟨.origin,some 0,some 1000⟩ rfl (by decide) (by decide +kernel)
  exact ⟨kept,own,parts,tail⟩

end RelaySwarm.Planning
