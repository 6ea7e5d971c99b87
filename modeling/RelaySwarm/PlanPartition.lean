import RelaySwarm.PieceGeometry

/-!
A plan is a partition of what is needed: every piece goes to one source, in maximal
runs, and every source is used at most once (`plan_partitions`). The counts of a split
add up whatever the arithmetic behind them, as long as they can be counted
(`rounded_partitions`).
-/
namespace RelaySwarm.Planning
open Pieces

/-! ### Runs -/

variable {needed : List Nat} {source : Timed} {sources : List Timed} {assignments : List Assignment}
  {input : PlanInput}
abbrev Apart (ranges : List PieceRange) : Prop := ranges.Pairwise (fun r s => r.stop < s.start)
/-- Runs kept last first: none touches another, and none is empty or ends beyond the
    indices to come. -/
structure Joined (done : List PieceRange) (rest : List Nat) : Prop where
  apart : done.Pairwise (fun later earlier => earlier.stop < later.start)
  proper : ∀ r ∈ done, r.start < r.stop
  before : ∀ r ∈ done, ∀ index ∈ rest, r.stop ≤ index
theorem Joined.extend {done : List PieceRange} {index : Nat} {rest : List Nat} (joined : Joined done (index :: rest))
    (ascending : ∀ later ∈ rest, index < later) : Joined (extendRuns done index) rest := by
  cases done with
  | nil =>
    refine ⟨List.pairwise_singleton _ _,by simp [extendRuns],?_⟩
    intro r member later inside
    rw [extendRuns,List.mem_singleton] at member
    rw [member]
    exact ascending later inside
  | cons last earlier =>
    obtain ⟨apart,proper,before⟩ := joined
    obtain ⟨touching,apart'⟩ := List.pairwise_cons.mp apart
    have ordered := proper last (by simp)
    have ended := before last (by simp) index (by simp)
    unfold extendRuns
    dsimp only
    split_ifs with next
    · refine ⟨List.pairwise_cons.mpr ⟨touching,apart'⟩,?_,?_⟩
      · intro r member
        rcases List.mem_cons.mp member with rfl | old
        · exact Nat.lt_succ_of_lt ordered
        · exact proper r (List.mem_cons_of_mem _ old)
      · intro r member later inside
        rcases List.mem_cons.mp member with rfl | old
        · have more := ascending later inside
          change last.stop + 1 ≤ later
          omega
        · exact before r (List.mem_cons_of_mem _ old) later (List.mem_cons_of_mem _ inside)
    · refine ⟨List.pairwise_cons.mpr ⟨?_,apart⟩,?_,?_⟩
      · intro r member
        change r.stop < index
        rcases List.mem_cons.mp member with rfl | old
        · omega
        · have gap := touching r old
          omega
      · intro r member
        rcases List.mem_cons.mp member with rfl | old
        · exact Nat.lt_succ_self index
        · exact proper r old
      · intro r member later inside
        rcases List.mem_cons.mp member with rfl | old
        · exact ascending later inside
        · exact before r old later (List.mem_cons_of_mem _ inside)
theorem fold_joined (pieces : List Nat) : ∀ {done : List PieceRange}, pieces.Pairwise (· < ·) → Joined done pieces →
    Joined (pieces.foldl extendRuns done) [] := by
  induction pieces with
  | nil => intro done _ joined; exact joined
  | cons index rest ih =>
    intro done ascending joined
    obtain ⟨first,later⟩ := List.pairwise_cons.mp ascending
    exact ih later (joined.extend first)
theorem runs_apart {pieces : List Nat} (ascending : pieces.Pairwise (· < ·)) : Apart (runs pieces) := by
  have joined := @fold_joined pieces [] ascending ⟨.nil,by simp,by simp⟩
  unfold Apart runs
  rw [List.pairwise_reverse]
  exact joined.apart

/-! ### Assignments -/

/-- An assignment of some of the needed pieces to a source that is planned like this. -/
structure Worked (size : Nat) (needed : List Nat) (timed : Timed) (a : Assignment) : Prop where
  named : a.source = timed.source
  joined : a.ranges = runs (indices a.ranges)
  filled : indices a.ranges ≠ []
  sublist : (indices a.ranges).Sublist needed
  bytes : a.bytes = ((indices a.ranges).map (pieceBytes size (commitmentPieceSize size))).sum
  projected : a.projectedMs = timed.firstByte + a.bytes / timed.rate
theorem worked_take {size : Nat} {needed whole : List Nat} (source : Timed) {count : Nat} (some : needed ≠ [])
    (positive : count ≠ 0)
    (part : needed.Sublist whole) : Worked size whole source ⟨source.source,runs (needed.take count),
      ((needed.take count).map (pieceBytes size (commitmentPieceSize size))).sum,
      source.firstByte + (((needed.take count).map (pieceBytes size (commitmentPieceSize size))).sum : Nat) /
        source.rate⟩ := by
  refine ⟨rfl,by rw [indices_runs],?_,?_,by rw [indices_runs],rfl⟩
  · rw [indices_runs]
    intro none
    rcases List.take_eq_nil_iff.mp none with zero | empty
    · exact positive zero
    · exact some empty
  · rw [indices_runs]
    exact (List.take_sublist _ _).trans part
theorem Worked.widen {size : Nat} {needed whole : List Nat} {a : Assignment} (part : needed.Sublist whole)
    (worked : Worked size needed source a) : Worked size whole source a :=
  ⟨worked.named,worked.joined,worked.filled,worked.sublist.trans part,worked.bytes,worked.projected⟩

/-- Every assignment is worked out for one of the sources, and none is used twice. -/
structure Handed (size : Nat) (needed : List Nat) (sources : List Timed) (assignments : List Assignment) : Prop where
  worked : ∀ a ∈ assignments, ∃ source ∈ sources, Worked size needed source a
  order : (assignments.map (·.source)).Sublist (sources.map (·.source))
theorem Handed.skip {size : Nat}
    (handed : Handed size needed sources assignments) : Handed size needed (source :: sources) assignments := by
  refine ⟨fun a member => ?_,handed.order.cons _⟩
  obtain ⟨s,inside,worked⟩ := handed.worked a member
  exact ⟨s,List.mem_cons_of_mem _ inside,worked⟩
theorem Handed.take {size : Nat} {needed : List Nat} {source : Timed} {sources : List Timed}
    {assignments : List Assignment} {a : Assignment} (worked : Worked size needed source a) {count : Nat}
    (handed : Handed size (needed.drop count) sources assignments) : Handed size needed (source :: sources)
      (a :: assignments) := by
  refine ⟨fun b member => ?_,?_⟩
  · rcases List.mem_cons.mp member with rfl | later
    · exact ⟨source,by simp,worked⟩
    · obtain ⟨s,inside,worked'⟩ := handed.worked b later
      exact ⟨s,List.mem_cons_of_mem _ inside,worked'.widen (List.drop_sublist _ _)⟩
  · rw [List.map_cons,List.map_cons,worked.named]
    exact handed.order.cons_cons _
theorem deal_handed (size : Nat) (sources : List Timed) : ∀ (counts needed : List Nat), counts.length = sources.length →
    counts.sum = needed.length →
    Handed size needed sources (deal size (commitmentPieceSize size) sources counts needed) := by
  induction sources with
  | nil => intro counts needed _ _; exact ⟨by simp [deal],by simp [deal]⟩
  | cons source sources ih =>
    intro counts needed length sum
    cases counts with
    | nil => simp at length
    | cons count counts =>
      have lengths : counts.length = sources.length := by simpa using length
      unfold deal
      split_ifs with zero
      · exact (ih counts needed lengths (by simpa [zero] using sum)).skip
      · have rest := ih counts (needed.drop count) lengths (by rw [List.length_drop,← sum,List.sum_cons]; omega)
        have some : needed ≠ [] := by
          rintro rfl
          simp at sum
          omega
        exact Handed.take (worked_take source some zero (List.Sublist.refl _)) rest
theorem tail_handed (input : PlanInput) (origin : Timed) (untested : List Source) (peers : List Timed) : ∀ needed,
    Handed input.size needed (peers ++ [origin]) (tailAssignments input origin untested peers needed) := by
  induction peers with
  | nil =>
    intro needed
    unfold tailAssignments
    split_ifs with none
    · exact ⟨by simp,by simp⟩
    · have whole := @worked_take input.size needed needed origin needed.length none
        (by simpa using none) (List.Sublist.refl needed)
      rw [List.take_length] at whole
      refine @Handed.take input.size needed origin [] [] _ whole 0 ⟨by simp,by simp⟩
  | cons peer peers ih =>
    intro needed
    unfold tailAssignments
    split_ifs with none
    · exact ⟨by simp,by simp⟩
    · dsimp only
      split_ifs with zero
      · exact (ih needed).skip
      · exact Handed.take (worked_take peer none zero (List.Sublist.refl _)) (ih _)

/-! ### The plan -/

/-- How a source is planned. -/
def timed (input : PlanInput) (estimate : Estimate) : Timed :=
  let tested := median (input.peers.filterMap (fun peer => positive peer.rate))
  let fallbackRate := (tested.or (positive input.sharedRate)).getD minRate
  let fallbackFirstByte := (nonNegative input.sharedFirstByteMs).getD 0
  ⟨estimate.source,(nonNegative estimate.firstByteMs).getD fallbackFirstByte,(positive estimate.rate).getD fallbackRate⟩
theorem resolve_eq (estimates : List Estimate) (input : PlanInput) :
    resolve estimates input = estimates.map (timed input) := rfl
/-- The peers that are used, fastest first. -/
def ranked (input : PlanInput) : List Timed :=
  ((resolve input.peers input).insertionSort faster).take (max input.maxHolders 1)
/-- The peers that are given a trial. -/
def untested (input : PlanInput) : List Source :=
  (input.peers.filter (fun peer => (positive peer.rate).isNone)).map (·.source)
theorem ranked_length (input : PlanInput) : (ranked input).length ≤ max input.maxHolders 1 := List.length_take_le _ _
theorem ranked_sources (input : PlanInput) : ∃ sorted : List Source, sorted.Perm (input.peers.map (·.source)) ∧
    ((ranked input).map (·.source)).Sublist sorted := by
  refine ⟨((resolve input.peers input).insertionSort faster).map (·.source),?_,(List.take_sublist _ _).map _⟩
  have same : (resolve input.peers input).map (·.source) = input.peers.map (·.source) := by
    rw [resolve_eq,List.map_map]
    rfl
  rw [← same]
  exact (List.perm_insertionSort faster _).map _
theorem ranked_timed (member : source ∈ ranked input) :
    ∃ e ∈ input.peers, source = timed input e := by
  have listed := (List.mem_insertionSort _).mp (List.mem_of_mem_take member)
  obtain ⟨e,inside,same⟩ := List.mem_map.mp listed
  exact ⟨e,inside,same.symm⟩
theorem ranked_nil : ranked input = [] ↔ input.peers = [] := by
  constructor
  · intro empty
    rcases List.take_eq_nil_iff.mp empty with zero | none
    · omega
    · have length := List.length_insertionSort faster (resolve input.peers input)
      rw [none] at length
      simpa [resolve] using length.symm
  · intro none
    simp [ranked,resolve,none]

/-- How a plan of something comes about. -/
inductive Planned (input : PlanInput) : Plan → Prop
  | alone (some : ranked input ≠ []) (early : (split input (ranked input)).late = false ∨ input.origin = none) :
      Planned input (split input (ranked input))
  | tail {e : Estimate} (offered : input.origin = some e)
    (late : ranked input ≠ [] → (split input (ranked input)).late = true) :
      Planned input (tailToOrigin input (ranked input) (timed input e) (untested input))
  | nothing (bare : input.peers = []) (alone : input.origin = none) : Planned input ⟨[],⊤,true⟩
theorem plan_planned (some : input.needed ≠ []) : Planned input (plan input) := by
  unfold plan
  have leads : ((resolve input.peers input).insertionSort faster).take (max input.maxHolders 1) = ranked input := rfl
  rw [if_neg some,leads]
  dsimp only
  by_cases empty : ranked input = []
  · rw [if_pos empty,Option.filter_none]
    cases offered : input.origin with
    | none => exact .nothing (ranked_nil.mp empty) offered
    | some e => exact .tail offered (fun filled => absurd empty filled)
  · rw [if_neg empty]
    cases late : (split input (ranked input)).late with
    | false =>
      rw [Option.filter_some_pos (by simp [late])]
      exact .alone empty (.inl late)
    | true =>
      rw [Option.filter_some_neg (by simp [late])]
      cases offered : input.origin with
      | none => exact .alone empty (.inr offered)
      | some e => exact .tail offered (fun _ => late)
theorem Planned.handed {p : Plan} (planned : Planned input p) :
    Handed input.size input.needed (ranked input ++ input.origin.toList.map (timed input)) p.assignments := by
  cases planned with
  | alone some early =>
    have handed : Handed input.size input.needed (ranked input) (split input (ranked input)).assignments :=
      deal_handed _ _ _ _ (by simp [apportion_length]) (apportion_sum (by simpa using some) _)
    refine ⟨fun a member => ?_,?_⟩
    · obtain ⟨source,inside,worked⟩ := handed.worked a member
      exact ⟨source,List.mem_append_left _ inside,worked⟩
    · rw [List.map_append]
      exact handed.order.trans (List.sublist_append_left _ _)
  | tail offered late =>
    rw [offered]
    exact tail_handed input _ _ _ _
  | nothing bare alone => exact ⟨by simp,by simp⟩
theorem Planned.dealt {p : Plan} (planned : Planned input p)
    (usable : input.peers ≠ [] ∨ input.origin ≠ none) : Planning.dealt p.assignments = input.needed := by
  cases planned with
  | alone some early => exact split_dealt input some
  | tail offered late => exact tail_dealt _ _ _ _ _
  | nothing bare alone =>
    rcases usable with peers | origin
    · exact absurd bare peers
    · exact absurd alone origin
theorem plan_nothing (none : input.needed = []) : (plan input).assignments = [] := by
  unfold plan
  rw [if_pos none]

/-- A list of assignments hands out the needed pieces and nothing else, each to one of
    the sources, in maximal runs within the object. -/
structure Partition (size : Nat) (needed : List Nat) (sources : List Timed) (assignments : List Assignment) : Prop where
  dealt : dealt assignments = needed
  worked : ∀ a ∈ assignments, ∃ source ∈ sources, Worked size needed source a
  apart : ∀ a ∈ assignments, a.ranges ≠ [] ∧ Apart a.ranges
  inside : ∀ a ∈ assignments, ∀ r ∈ a.ranges, r.start < r.stop ∧ (r.stop - 1) * commitmentPieceSize size < size
theorem Partition.of_subset {size : Nat} {sources more : List Timed}
    (partition : Partition size needed sources assignments) (among : ∀ source ∈ sources, source ∈ more) :
    Partition size needed more assignments := by
  refine ⟨partition.dealt,fun a member => ?_,partition.apart,partition.inside⟩
  obtain ⟨source,listed,worked⟩ := partition.worked a member
  exact ⟨source,among source listed,worked⟩
theorem Handed.partition {size : Nat}
    (ascending : needed.Pairwise (· < ·)) (within : ∀ index ∈ needed, index * commitmentPieceSize size < size)
    (handed : Handed size needed sources assignments) (all : Planning.dealt assignments = needed) :
    Partition size needed sources assignments := by
  refine ⟨all,handed.worked,fun a member => ?_,fun a member r inside => ?_⟩
  · obtain ⟨_,_,worked⟩ := handed.worked a member
    refine ⟨fun empty => worked.filled (by rw [empty]; rfl),?_⟩
    rw [worked.joined]
    exact runs_apart (ascending.sublist worked.sublist)
  · obtain ⟨_,_,worked⟩ := handed.worked a member
    have proper : r.start < r.stop := by
      rw [worked.joined] at inside
      exact runs_proper inside
    refine ⟨proper,within _ (worked.sublist.subset (mem_indices.mpr ⟨r,inside,?_,?_⟩))⟩
    · omega
    · omega

/-! ### Counting in machine words -/

def wordSum (counts : List Nat) : Nat := counts.sum % 18446744073709551616
/-- The counts of a split from whatever whole pieces and whatever order the arithmetic
    gives. -/
def apportionWords (floors order : List Nat) (needed : Nat) : List Nat :=
  let placed := placeRest floors (needed - wordSum floors) order
  let counts := placed.1.modify 0 (· + placed.2)
  (trimTail counts (wordSum counts - needed)).1
theorem apportionWords_length (floors order : List Nat) (needed : Nat)
    (inside : ∀ index ∈ order, index < floors.length) :
    (apportionWords floors order needed).length = floors.length := by
  obtain ⟨_,length⟩ := place_rest_sum order floors (needed - wordSum floors) inside
  simp only [apportionWords,(trim_tail_sum _ _).2.2,List.length_modify,length]
theorem apportionWords_sum {floors order : List Nat} {needed : Nat} (some : floors ≠ [])
    (inside : ∀ index ∈ order, index < floors.length) (counted : floors.sum < 18446744073709551616)
    (few : needed < 18446744073709551616) : (apportionWords floors order needed).sum = needed := by
  have whole : wordSum floors = floors.sum := Nat.mod_eq_of_lt counted
  obtain ⟨sum,length⟩ := place_rest_sum order floors (needed - wordSum floors) inside
  have first := List.length_pos_iff.mpr some
  have total := sum_modify (placeRest floors (needed - wordSum floors) order).1 0
    (placeRest floors (needed - wordSum floors) order).2 (by rw [length]; exact first)
  rw [sum,whole] at total
  simp only [apportionWords,(trim_tail_sum _ _).1]
  rw [whole,total]
  unfold wordSum
  rw [total,Nat.mod_eq_of_lt (by omega)]
  omega

/-- For every object, every ascending list of pieces in it and all estimates of distinct
    sources: with a source to use, the assignments hand out exactly what is needed, each
    in maximal runs within the object, with the bytes and the projection of its source,
    every source at most once, and to no more peers than may be used besides origin. The
    same counts come out of a split whatever its arithmetic, as long as the whole pieces
    can be counted in a machine word. -/
theorem plan_partitions (input : PlanInput) (ascending : input.needed.Pairwise (· < ·))
    (within : ∀ index ∈ input.needed, index * commitmentPieceSize input.size < input.size)
    (distinct : ((input.peers ++ input.origin.toList).map (·.source)).Nodup)
    (usable : input.peers ≠ [] ∨ input.origin ≠ none) :
    Partition input.size input.needed ((input.peers ++ input.origin.toList).map (timed input))
      (plan input).assignments ∧
    ((plan input).assignments.map (·.source)).Nodup ∧
    (∃ holders : List Source, holders.length ≤ max 1 input.maxHolders ∧
      ((plan input).assignments.map (·.source)).Sublist (holders ++ input.origin.toList.map (·.source))) ∧
    ∀ (sources : List Timed) (floors order : List Nat), sources ≠ [] → floors.length = sources.length →
      (∀ index ∈ order, index < sources.length) → floors.sum < 18446744073709551616 →
      input.needed.length < 18446744073709551616 →
      Partition input.size input.needed sources (deal input.size (commitmentPieceSize input.size) sources
        (apportionWords floors order input.needed.length) input.needed) := by
  obtain ⟨sorted,permuted,ranked_sorted⟩ := ranked_sources input
  have few := ranked_length input
  rw [max_comm] at few
  have handed : Handed input.size input.needed (ranked input ++ input.origin.toList.map (timed input))
      (plan input).assignments := by
    by_cases empty : input.needed = []
    · rw [plan_nothing empty]
      exact ⟨by simp,by simp⟩
    · exact (plan_planned empty).handed
  have all : dealt (plan input).assignments = input.needed := by
    by_cases empty : input.needed = []
    · rw [plan_nothing empty,empty]
      rfl
    · exact (plan_planned empty).dealt usable
  have origin_named : (input.origin.toList.map (timed input)).map (·.source) = input.origin.toList.map (·.source) := by
    rw [List.map_map]
    rfl
  refine ⟨(handed.partition ascending within all).of_subset ?_,?_,
    ⟨(ranked input).map (·.source),by simpa using few,?_⟩,?_⟩
  · intro source member
    rw [List.map_append]
    rcases List.mem_append.mp member with peer | origin
    · obtain ⟨e,inside,rfl⟩ := ranked_timed peer
      exact List.mem_append_left _ (List.mem_map_of_mem inside)
    · exact List.mem_append_right _ origin
  · rw [List.map_append] at distinct
    have whole : (sorted ++ input.origin.toList.map (·.source)).Nodup :=
      (permuted.append_right _).nodup_iff.mpr distinct
    refine whole.sublist (handed.order.trans ?_)
    rw [List.map_append,origin_named]
    exact ranked_sorted.append (List.Sublist.refl _)
  · rw [← origin_named,← List.map_append]
    exact handed.order
  · intro sources floors order some length inside counted many
    have floors_some : floors ≠ [] := by
      rintro rfl
      exact some (List.length_eq_zero_iff.mp length.symm)
    have sum := apportionWords_sum floors_some (by rw [length]; exact inside) counted many
    have counts := apportionWords_length floors order input.needed.length (by rw [length]; exact inside)
    exact (deal_handed input.size sources _ _ (counts.trans length) sum).partition ascending within
      (deal_dealt _ _ _ _ _ (counts.trans length) sum)
/-- Two peers, one of them not yet measured, and origin. -/
def twoPeers : PlanInput :=
  ⟨200000,[0,2,3],[⟨.peer 1,some 10,some 100⟩,⟨.peer 2,none,none⟩],some ⟨.origin,some 5,some 300⟩,none,none,900,3⟩
theorem plan_partitions_two_peers : ((plan twoPeers).assignments.map (·.source)).Nodup ∧
    dealt (plan twoPeers).assignments = [0,2,3] := by
  obtain ⟨partition,once,_⟩ := plan_partitions twoPeers (by decide) (by decide) (by decide) (.inl (by simp [twoPeers]))
  exact ⟨once,partition.dealt⟩

end RelaySwarm.Planning
