import RelaySwarm.Pieces
import Mathlib.Data.Rat.Floor
import Mathlib.Data.List.Sort
import Mathlib.Order.WithBot

/-!
The plan of one object: how the pieces still needed are split across sources so
that all are projected to finish together, origin joining for the tail when the
peers alone would be late. Estimates and projections are exact rationals. A plan
that has a source hands out exactly the needed pieces, in order
(`plan_indices`), and only to sources it was offered (`plan_sources`).
-/
namespace RelaySwarm.Planning
open Pieces

/-- Where pieces come from: a peer's link handle, or origin. -/
inductive Source where
  | peer (id : Nat)
  | origin
deriving DecidableEq, Repr

def Source.isPeer : Source → Bool
  | .peer _ => true
  | .origin => false
/-- Peers in the order of their handles, then origin. -/
def Source.rank : Source → WithTop Nat
  | .peer id => id
  | .origin => ⊤
theorem Source.rank_injective : Function.Injective Source.rank := by
  intro a b same
  cases a with
  | peer i =>
    cases b with
    | peer j => simpa [Source.rank] using same
    | origin => simp [Source.rank] at same
  | origin =>
    cases b with
    | peer j => simp [Source.rank] at same
    | origin => rfl
instance : LinearOrder Source := LinearOrder.lift' Source.rank Source.rank_injective

/-- What is known of one source's timing; the rate is in bytes per millisecond
    after the first byte, and `none` means untested. -/
structure Estimate where
  source : Source
  firstByteMs : Option ℚ
  rate : Option ℚ
deriving DecidableEq

structure PlanInput where
  size : Nat
  /-- Piece indices still needed, ascending. -/
  needed : List Nat
  peers : List Estimate
  origin : Option Estimate
  sharedFirstByteMs : Option ℚ
  sharedRate : Option ℚ
  /-- Time from now until the deadline less the origin reserve. -/
  availableMs : ℚ
  maxHolders : Nat

structure Assignment where
  source : Source
  ranges : List PieceRange
  bytes : Nat
  projectedMs : ℚ

structure Plan where
  assignments : List Assignment
  projectedMs : WithTop ℚ
  late : Bool

/-- The rate floor when nothing is measured, in bytes per millisecond. -/
def minRate : ℚ := 32 * 1024 / 1000

def positive (value : Option ℚ) : Option ℚ := value.filter (fun v => 0 < v)
def nonNegative (value : Option ℚ) : Option ℚ := value.filter (fun v => 0 ≤ v)

def median (values : List ℚ) : Option ℚ := (values.insertionSort (· ≤ ·))[values.length / 2]?

/-- A source with the first-byte time and the rate it is planned at. -/
structure Timed where
  source : Source
  firstByte : ℚ
  rate : ℚ

/-- Untested sources take the median of the tested peers, else the shared
    estimate, else the rate floor. -/
def resolve (estimates : List Estimate) (input : PlanInput) : List Timed :=
  let tested := median (input.peers.filterMap (fun peer => positive peer.rate))
  let fallbackRate := (tested.or (positive input.sharedRate)).getD minRate
  let fallbackFirstByte := (nonNegative input.sharedFirstByteMs).getD 0
  estimates.map (fun estimate => ⟨estimate.source,(nonNegative estimate.firstByteMs).getD fallbackFirstByte,
    (positive estimate.rate).getD fallbackRate⟩)

/-- The finish time of sources ordered by first-byte time, from the weights and
    rates added so far: the first one not past the next source's first byte. -/
def fillFrom (bytes weighted rates : ℚ) : List Timed → WithTop ℚ
  | [] => ⊤
  | source :: rest =>
    let weighted := weighted + source.firstByte * source.rate
    let rates := rates + source.rate
    let finish := (bytes + weighted) / rates
    match rest with
    | [] => finish
    | next :: _ => if finish ≤ next.firstByte then finish else fillFrom bytes weighted rates rest
/-- The time at which the sources together carry the bytes. -/
def waterFill (sources : List Timed) (bytes : ℚ) : WithTop ℚ :=
  fillFrom bytes 0 0 (sources.insertionSort (fun a b => a.firstByte ≤ b.firstByte))

/-- One more piece at each index, in order, while any are left; the counts and
    what is left over. -/
def placeRest (counts : List Nat) (left : Nat) : List Nat → List Nat × Nat
  | [] => (counts,left)
  | index :: order => if left = 0 then (counts,left) else placeRest (counts.modify index (· + 1)) (left - 1) order
/-- The excess is cut from the tail; the counts and the excess not cut. -/
def trimTail : List Nat → Nat → List Nat × Nat
  | [],excess => ([],excess)
  | count :: counts,excess =>
    let later := trimTail counts excess
    let cut := min later.2 count
    ((count - cut) :: later.1,later.2 - cut)
/-- Largest remainder over piece counts, from each source's share in pieces. -/
def apportion (shares : List ℚ) (needed : Nat) : List Nat :=
  let floors := shares.map (fun share => ⌊share⌋.toNat)
  let order := (List.range shares.length).insertionSort (fun a b =>
    let left := shares.getD a 0 - ⌊shares.getD a 0⌋
    let right := shares.getD b 0 - ⌊shares.getD b 0⌋
    right < left ∨ (right = left ∧ a ≤ b))
  let placed := placeRest floors (needed - floors.sum) order
  let counts := placed.1.modify 0 (· + placed.2)
  (trimTail counts (counts.sum - needed)).1

/-- Consecutive pieces go to the sources by their counts; a source with none is
    left out. -/
def deal (size pieceSize : Nat) : List Timed → List Nat → List Nat → List Assignment
  | source :: sources,count :: counts,needed =>
    if count = 0 then deal size pieceSize sources counts needed
    else
      let pieces := needed.take count
      let bytes := (pieces.map (pieceBytes size pieceSize)).sum
      ⟨source.source,runs pieces,bytes,source.firstByte + bytes / source.rate⟩ ::
        deal size pieceSize sources counts (needed.drop count)
  | _,_,_ => []

/-- The plan of given assignments; late when its last source is projected past
    the available time. -/
def planOf (assignments : List Assignment) (availableMs : ℚ) : Plan :=
  let projected := (assignments.map (·.projectedMs)).foldl max 0
  ⟨assignments,projected,availableMs < projected⟩

/-- The needed pieces split across sources in order, whole pieces each. -/
def split (input : PlanInput) (sources : List Timed) : Plan :=
  let pieceSize := commitmentPieceSize input.size
  let total := (input.needed.map (pieceBytes input.size pieceSize)).sum
  let finish := (waterFill sources total).untopD 0
  let shares := sources.map (fun source => max (finish - source.firstByte) 0 * source.rate / pieceSize)
  let counts := apportion shares input.needed.length
  planOf (deal input.size pieceSize sources counts input.needed) input.availableMs

/-- How many of the pieces a peer can carry in time; a trial takes at least one. -/
def carried (size pieceSize : Nat) (capacity : ℚ) (trial : Bool) (bytes : Nat) : List Nat → Nat
  | [] => 0
  | index :: rest =>
    let next := pieceBytes size pieceSize index
    if capacity < bytes + next ∧ trial = false then 0
    else 1 + carried size pieceSize capacity false (bytes + next) rest

/-- Peers keep what they can finish in time, and origin takes the tail. -/
def tailAssignments (input : PlanInput) (origin : Timed) (untested : List Source) :
    List Timed → List Nat → List Assignment
  | [],needed =>
    if needed = [] then []
    else
      let bytes := (needed.map (pieceBytes input.size (commitmentPieceSize input.size))).sum
      [⟨origin.source,runs needed,bytes,origin.firstByte + bytes / origin.rate⟩]
  | peer :: peers,needed =>
    if needed = [] then []
    else
      let pieceSize := commitmentPieceSize input.size
      let capacity := max (input.availableMs - peer.firstByte) 0 * peer.rate
      let count := carried input.size pieceSize capacity (untested.contains peer.source) 0 needed
      if count = 0 then tailAssignments input origin untested peers needed
      else
        let pieces := needed.take count
        let bytes := (pieces.map (pieceBytes input.size pieceSize)).sum
        ⟨peer.source,runs pieces,bytes,peer.firstByte + bytes / peer.rate⟩ ::
          tailAssignments input origin untested peers (needed.drop count)
def tailToOrigin (input : PlanInput) (peers : List Timed) (origin : Timed) (untested : List Source) : Plan :=
  planOf (tailAssignments input origin untested peers input.needed) input.availableMs

/-- Fastest first, then the sooner first byte, then the lower handle. -/
def faster (a b : Timed) : Prop :=
  b.rate < a.rate ∨ (b.rate = a.rate ∧ (a.firstByte < b.firstByte ∨ (a.firstByte = b.firstByte ∧ a.source ≤ b.source)))
instance : DecidableRel faster := fun _ _ => inferInstanceAs (Decidable (_ ∨ _))

/-- Peers alone first, fastest first; if they would be late, origin joins and
    takes the tail. Origin never counts against the holders. -/
def plan (input : PlanInput) : Plan :=
  if input.needed = [] then ⟨[],(0 : ℚ),false⟩
  else
    let peers := ((resolve input.peers input).insertionSort faster).take (max input.maxHolders 1)
    let alone := if peers = [] then none else some (split input peers)
    match alone.filter (fun alone => !alone.late) with
    | some alone => alone
    | none =>
      match input.origin with
      | none => alone.getD ⟨[],⊤,true⟩
      | some estimate =>
        match resolve [estimate] input with
        | [] => ⟨[],⊤,true⟩
        | origin :: _ =>
          let untested := (input.peers.filter (fun peer => (positive peer.rate).isNone)).map (·.source)
          tailToOrigin input peers origin untested

/-! ### A plan hands out exactly the needed pieces -/

def dealt (assignments : List Assignment) : List Nat := assignments.flatMap (fun a => indices a.ranges)

theorem sum_modify (counts : List Nat) : ∀ (index extra : Nat), index < counts.length →
    (counts.modify index (· + extra)).sum = counts.sum + extra := by
  induction counts with
  | nil => intro index extra inside; simp at inside
  | cons count rest ih =>
    intro index extra inside
    cases index with
    | zero => simp [List.modify_zero_cons]; omega
    | succ index =>
      have later := ih index extra (by simpa using inside)
      simp [later]; omega
theorem place_rest_sum (order : List Nat) : ∀ (counts : List Nat) (left : Nat),
    (∀ index ∈ order, index < counts.length) →
      (placeRest counts left order).1.sum + (placeRest counts left order).2 = counts.sum + left ∧
        (placeRest counts left order).1.length = counts.length := by
  induction order with
  | nil => intro counts left _; exact ⟨rfl,rfl⟩
  | cons index order ih =>
    intro counts left inside
    unfold placeRest
    by_cases none : left = 0
    · simp [none]
    · obtain ⟨sum,length⟩ := ih (counts.modify index (· + 1)) (left - 1)
        (fun i member => by simpa using inside i (by simp [member]))
      have one := sum_modify counts index 1 (inside index (by simp))
      rw [if_neg none]
      exact ⟨by rw [sum,one]; omega,by simpa using length⟩
theorem trim_tail_sum (counts : List Nat) (excess : Nat) :
    (trimTail counts excess).1.sum = counts.sum - excess ∧ (trimTail counts excess).2 = excess - counts.sum ∧
      (trimTail counts excess).1.length = counts.length := by
  induction counts with
  | nil => simp [trimTail]
  | cons count rest ih =>
    obtain ⟨sum,left,length⟩ := ih
    simp only [trimTail,List.sum_cons,List.length_cons,sum,left,length,and_true]
    omega
theorem apportion_length (shares : List ℚ) (needed : Nat) : (apportion shares needed).length = shares.length := by
  have order := (place_rest_sum ((List.range shares.length).insertionSort (fun a b =>
    shares.getD b 0 - ⌊shares.getD b 0⌋ < shares.getD a 0 - ⌊shares.getD a 0⌋ ∨
      (shares.getD b 0 - ⌊shares.getD b 0⌋ = shares.getD a 0 - ⌊shares.getD a 0⌋ ∧ a ≤ b)))
    (shares.map (fun share => ⌊share⌋.toNat)) (needed - (shares.map (fun share => ⌊share⌋.toNat)).sum)
    (fun i member => by simpa using (List.mem_insertionSort _).mp member)).2
  simp only [apportion,(trim_tail_sum _ _).2.2,List.length_modify,order,List.length_map]
/-- The counts of a non-empty list of sources add up to the needed pieces,
    whatever the shares were. -/
theorem apportion_sum {shares : List ℚ} (some : shares ≠ []) (needed : Nat) :
    (apportion shares needed).sum = needed := by
  obtain ⟨sum,length⟩ := place_rest_sum ((List.range shares.length).insertionSort (fun a b =>
    shares.getD b 0 - ⌊shares.getD b 0⌋ < shares.getD a 0 - ⌊shares.getD a 0⌋ ∨
      (shares.getD b 0 - ⌊shares.getD b 0⌋ = shares.getD a 0 - ⌊shares.getD a 0⌋ ∧ a ≤ b)))
    (shares.map (fun share => ⌊share⌋.toNat)) (needed - (shares.map (fun share => ⌊share⌋.toNat)).sum)
    (fun i member => by simpa using (List.mem_insertionSort _).mp member)
  have first := List.length_pos_iff.mpr some
  simp only [apportion,(trim_tail_sum _ _).1]
  rw [sum_modify _ 0 _ (by rw [length]; simpa using first),sum]
  omega

theorem deal_dealt (size pieceSize : Nat) (sources : List Timed) : ∀ (counts needed : List Nat),
    counts.length = sources.length → counts.sum = needed.length →
      dealt (deal size pieceSize sources counts needed) = needed := by
  induction sources with
  | nil =>
    intro counts needed length sum
    have none : counts = [] := List.length_eq_zero_iff.mp (by simpa using length)
    subst none
    have : needed = [] := List.length_eq_zero_iff.mp (by simpa using sum.symm)
    simp [deal,dealt,this]
  | cons source sources ih =>
    intro counts needed length sum
    cases counts with
    | nil => simp at length
    | cons count counts =>
      have lengths : counts.length = sources.length := by simpa using length
      unfold deal
      by_cases zero : count = 0
      · rw [if_pos zero]
        exact ih counts needed lengths (by simpa [zero] using sum)
      · rw [if_neg zero]
        have rest := ih counts (needed.drop count) lengths (by
          rw [List.length_drop,← sum,List.sum_cons]; omega)
        simp only [dealt,List.flatMap_cons] at rest ⊢
        rw [rest,indices_runs,List.take_append_drop]
theorem tail_dealt (input : PlanInput) (origin : Timed) (untested : List Source) (peers : List Timed) :
    ∀ needed, dealt (tailAssignments input origin untested peers needed) = needed := by
  induction peers with
  | nil =>
    intro needed
    unfold tailAssignments
    by_cases none : needed = []
    · simp [none,dealt]
    · simp [none,dealt,indices_runs]
  | cons peer peers ih =>
    intro needed
    unfold tailAssignments
    by_cases none : needed = []
    · simp [none,dealt]
    · simp only [none,if_false]
      split_ifs with zero
      · exact ih needed
      · simp only [dealt,List.flatMap_cons] at ih ⊢
        rw [ih,indices_runs,List.take_append_drop]

theorem split_dealt (input : PlanInput) {sources : List Timed} (some : sources ≠ []) :
    dealt (split input sources).assignments = input.needed := by
  unfold split
  exact deal_dealt _ _ _ _ _ (by simp [apportion_length]) (apportion_sum (by simpa using some) _)
/-! ### A plan hands out to the sources it was offered, and no empty range -/

/-- No range of any assignment is empty, and none comes without a piece. -/
def Proper (assignments : List Assignment) : Prop :=
  ∀ a ∈ assignments, a.ranges ≠ [] ∧ ∀ r ∈ a.ranges, r.start < r.stop
private theorem runs_take_proper {needed : List Nat} {count : Nat} (some : needed ≠ []) (positive : count ≠ 0) :
    runs (needed.take count) ≠ [] ∧ ∀ r ∈ runs (needed.take count), r.start < r.stop := by
  refine ⟨fun none => ?_,fun r member => runs_proper member⟩
  rcases List.take_eq_nil_iff.mp (runs_eq_nil.mp none) with zero | empty
  · exact positive zero
  · exact some empty

theorem deal_proper (size pieceSize : Nat) (sources : List Timed) : ∀ (counts needed : List Nat),
    counts.sum = needed.length → counts.length = sources.length → Proper (deal size pieceSize sources counts needed) ∧
      ∀ a ∈ deal size pieceSize sources counts needed, ∃ s ∈ sources, a.source = s.source := by
  induction sources with
  | nil => intro counts needed _ _; simp [deal,Proper]
  | cons source sources ih =>
    intro counts needed sum length
    cases counts with
    | nil => simp at length
    | cons count counts =>
      have lengths : counts.length = sources.length := by simpa using length
      unfold deal
      by_cases zero : count = 0
      · rw [if_pos zero]
        obtain ⟨proper,offered⟩ := ih counts needed (by simpa [zero] using sum) lengths
        exact ⟨proper,fun a member => by
          obtain ⟨s,found,same⟩ := offered a member; exact ⟨s,by simp [found],same⟩⟩
      · rw [if_neg zero]
        obtain ⟨proper,offered⟩ := ih counts (needed.drop count)
          (by rw [List.length_drop,← sum,List.sum_cons]; omega) lengths
        have some : needed ≠ [] := by
          rintro rfl
          simp at sum; omega
        constructor
        · intro a member
          rcases List.mem_cons.mp member with rfl | later
          · exact runs_take_proper some zero
          · exact proper a later
        · intro a member
          rcases List.mem_cons.mp member with rfl | later
          · exact ⟨source,by simp,rfl⟩
          · obtain ⟨s,found,same⟩ := offered a later
            exact ⟨s,by simp [found],same⟩
theorem tail_proper (input : PlanInput) (origin : Timed) (untested : List Source) (peers : List Timed) :
    ∀ needed, Proper (tailAssignments input origin untested peers needed) ∧
      ∀ a ∈ tailAssignments input origin untested peers needed,
        a.source = origin.source ∨ ∃ s ∈ peers, a.source = s.source := by
  induction peers with
  | nil =>
    intro needed
    unfold tailAssignments
    by_cases none : needed = []
    · simp [none,Proper]
    · simp only [none,if_false,List.mem_singleton,forall_eq,true_or,and_true,Proper]
      exact ⟨fun empty => none (runs_eq_nil.mp empty),fun r member => runs_proper member⟩
  | cons peer peers ih =>
    intro needed
    unfold tailAssignments
    by_cases none : needed = []
    · simp [none,Proper]
    · simp only [none,if_false]
      have widen : ∀ a : Assignment, (a.source = origin.source ∨ ∃ s ∈ peers, a.source = s.source) →
          a.source = origin.source ∨ ∃ s ∈ peer :: peers, a.source = s.source := by
        rintro a (own | ⟨s,found,same⟩)
        · exact .inl own
        · exact .inr ⟨s,by simp [found],same⟩
      split_ifs with zero
      · exact ⟨(ih needed).1,fun a member => widen a ((ih needed).2 a member)⟩
      · constructor
        · intro a member
          rcases List.mem_cons.mp member with rfl | later
          · exact runs_take_proper none zero
          · exact (ih _).1 a later
        · intro a member
          rcases List.mem_cons.mp member with rfl | later
          · exact .inr ⟨peer,by simp,rfl⟩
          · exact widen a ((ih _).2 a later)

theorem split_proper (input : PlanInput) {sources : List Timed} (some : sources ≠ []) :
    Proper (split input sources).assignments ∧
      ∀ a ∈ (split input sources).assignments, ∃ s ∈ sources, a.source = s.source := by
  unfold split
  exact deal_proper _ _ _ _ _ (apportion_sum (by simpa using some) _) (by simp [apportion_length])
/-- The sources of a list are among the given estimates. -/
def Offered (sources : List Timed) (estimates : List Estimate) : Prop :=
  ∀ t ∈ sources, ∃ e ∈ estimates, t.source = e.source
private theorem ranked_offered (input : PlanInput) :
    Offered (((resolve input.peers input).insertionSort faster).take (max input.maxHolders 1)) input.peers := by
  intro t member
  have listed := (List.mem_insertionSort _).mp (List.mem_of_mem_take member)
  obtain ⟨e,found,same⟩ := List.mem_map.mp listed
  exact ⟨e,found,by simp [← same]⟩
private theorem ranked_eq_nil (input : PlanInput) :
    ((resolve input.peers input).insertionSort faster).take (max input.maxHolders 1) = [] ↔ input.peers = [] := by
  rw [List.take_eq_nil_iff]
  constructor
  · rintro (zero | none)
    · omega
    · have length : (resolve input.peers input).length = 0 := by
        rw [← List.length_insertionSort (r := faster),none]; rfl
      simpa [resolve] using length
  · intro none
    exact .inr (by simp [resolve,none])

/-- The ways a plan comes about: nothing is needed, the peers alone take it,
    origin takes the tail, or there is no source at all. -/
theorem plan_cases (input : PlanInput) :
    (input.needed = [] ∧ (plan input).assignments = []) ∨
    (∃ sources, sources ≠ [] ∧ Offered sources input.peers ∧ sources.length ≤ max input.maxHolders 1 ∧
      plan input = split input sources) ∨
    (∃ estimate origin peers untested, input.origin = some estimate ∧ origin.source = estimate.source ∧
      Offered peers input.peers ∧ peers.length ≤ max input.maxHolders 1 ∧
      plan input = tailToOrigin input peers origin untested) ∨
    (input.peers = [] ∧ input.origin = none ∧ (plan input).assignments = []) := by
  unfold plan
  by_cases none : input.needed = []
  · exact .inl ⟨none,by simp [none]⟩
  · rw [if_neg none]
    simp only [ranked_eq_nil]
    have offered := ranked_offered input
    have few := List.length_take_le (max input.maxHolders 1) ((resolve input.peers input).insertionSort faster)
    by_cases noPeers : input.peers = []
    · rw [if_pos noPeers]
      cases origin : input.origin with
      | none => exact .inr (.inr (.inr ⟨noPeers,rfl,rfl⟩))
      | some estimate =>
        refine .inr (.inr (.inl ⟨estimate,_,_,_,rfl,?_,offered,few,rfl⟩))
        rfl
    · rw [if_neg noPeers]
      have some : ((resolve input.peers input).insertionSort faster).take (max input.maxHolders 1) ≠ [] :=
        fun empty => noPeers ((ranked_eq_nil input).mp empty)
      cases late : (split input (((resolve input.peers input).insertionSort faster).take
          (max input.maxHolders 1))).late with
      | false => exact .inr (.inl ⟨_,some,offered,few,by simp [Option.filter,late]⟩)
      | true =>
        simp only [Option.filter,late]
        cases origin : input.origin with
        | none => exact .inr (.inl ⟨_,some,offered,few,rfl⟩)
        | some estimate =>
          refine .inr (.inr (.inl ⟨estimate,_,_,_,rfl,?_,offered,few,rfl⟩))
          rfl

theorem plan_dealt (input : PlanInput) (usable : input.peers ≠ [] ∨ input.origin ≠ none) :
    dealt (plan input).assignments = input.needed := by
  rcases plan_cases input with ⟨none,empty⟩ | ⟨sources,some,_,_,equal⟩ | ⟨_,_,_,_,_,_,_,_,equal⟩ | ⟨noPeers,noOrigin,_⟩
  · simp [empty,none,dealt]
  · rw [equal]; exact split_dealt input some
  · rw [equal]; exact tail_dealt _ _ _ _ _
  · rcases usable with peers | origin
    · exact absurd noPeers peers
    · exact absurd noOrigin origin
theorem plan_proper (input : PlanInput) :
    Proper (plan input).assignments ∧ ∀ a ∈ (plan input).assignments,
      (∃ e ∈ input.peers, a.source = e.source) ∨ ∃ e, input.origin = some e ∧ a.source = e.source := by
  rcases plan_cases input with ⟨_,empty⟩ | ⟨sources,some,offered,_,equal⟩ | ⟨e,o,peers,u,found,same,offered,_,equal⟩ |
    ⟨_,_,empty⟩
  · simp [empty,Proper]
  · obtain ⟨proper,listed⟩ := split_proper input some
    rw [equal]
    refine ⟨proper,fun a member => ?_⟩
    obtain ⟨s,inside,source⟩ := listed a member
    obtain ⟨e,peer,estimate⟩ := offered s inside
    exact .inl ⟨e,peer,source.trans estimate⟩
  · obtain ⟨proper,listed⟩ := tail_proper input o u peers input.needed
    rw [equal]
    refine ⟨proper,fun a member => ?_⟩
    rcases listed a member with own | ⟨s,inside,source⟩
    · exact .inr ⟨e,found,own.trans same⟩
    · obtain ⟨d,peer,estimate⟩ := offered s inside
      exact .inl ⟨d,peer,source.trans estimate⟩
  · simp [empty,Proper]
theorem plan_holders (input : PlanInput) : ∃ sources : List Source, sources.length ≤ max input.maxHolders 1 ∧
    ∀ a ∈ (plan input).assignments, a.source ∈ sources ∨ ∃ e, input.origin = some e ∧ a.source = e.source := by
  rcases plan_cases input
    with ⟨_,empty⟩ | ⟨sources,some,_,few,equal⟩ | ⟨e,o,peers,u,found,same,_,few,equal⟩ | ⟨_,_,empty⟩
  · exact ⟨[],by simp,by simp [empty]⟩
  · refine ⟨sources.map (·.source),by simpa using few,fun a member => .inl ?_⟩
    rw [equal] at member
    obtain ⟨s,listed,named⟩ := (split_proper input some).2 a member
    exact List.mem_map.mpr ⟨s,listed,named.symm⟩
  · refine ⟨peers.map (·.source),by simpa using few,fun a member => ?_⟩
    rw [equal] at member
    rcases (tail_proper input o u peers input.needed).2 a member with own | ⟨s,listed,named⟩
    · exact .inr ⟨e,found,own.trans same⟩
    · exact .inl (List.mem_map.mpr ⟨s,listed,named.symm⟩)
  · exact ⟨[],by simp,by simp [empty]⟩

end RelaySwarm.Planning
