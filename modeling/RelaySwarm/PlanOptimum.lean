import RelaySwarm.PlanPartition

/-!
A split finishes within one piece of the best there is. Water filling finds the one time
at which the sources together carry the bytes, no division of the bytes is done sooner,
and rounding to whole pieces costs a source at most one piece (`split_optimal`).
-/
namespace RelaySwarm.Planning
open Pieces

variable {source : Timed} {sources : List Timed}
def carriedBy (finish : ℚ) (source : Timed) : ℚ := max (finish - source.firstByte) 0 * source.rate
def carriedTogether (sources : List Timed) (finish : ℚ) : ℚ := (sources.map (carriedBy finish)).sum
abbrev Sane (sources : List Timed) : Prop := ∀ source ∈ sources, 0 ≤ source.firstByte ∧ 0 < source.rate
abbrev Sooner (a b : Timed) : Prop := a.firstByte ≤ b.firstByte
instance : @Std.Total Timed Sooner := ⟨fun a b => le_total a.firstByte b.firstByte⟩
instance : IsTrans Timed Sooner := ⟨fun _ _ _ => le_trans⟩

/-! ### Water filling -/

theorem carried_late {finish : ℚ} (late : finish ≤ source.firstByte) : carriedBy finish source = 0 := by
  unfold carriedBy
  rw [max_eq_right (by linarith),zero_mul]
theorem carried_early {finish : ℚ} (early : source.firstByte ≤ finish) :
    carriedBy finish source = finish * source.rate - source.firstByte * source.rate := by
  unfold carriedBy
  rw [max_eq_left (by linarith),sub_mul]
theorem carried_nonneg {finish : ℚ} (rate : 0 < source.rate) : 0 ≤ carriedBy finish source :=
  mul_nonneg (le_max_right _ _) rate.le
theorem together_late {finish : ℚ} (late : ∀ source ∈ sources, finish ≤ source.firstByte) :
    carriedTogether sources finish = 0 := by
  unfold carriedTogether
  refine List.sum_eq_zero fun carried member => ?_
  obtain ⟨source,inside,rfl⟩ := List.mem_map.mp member
  exact carried_late (late source inside)
theorem together_mono (sane : Sane sources) {early late : ℚ} (before : early ≤ late) :
    carriedTogether sources early ≤ carriedTogether sources late := by
  refine List.sum_le_sum fun source member => ?_
  exact mul_le_mul_of_nonneg_right (max_le_max (by linarith) le_rfl) (sane source member).2.le
theorem together_strict (sane : Sane sources) {early late : ℚ} (before : early < late)
    (some : 0 < carriedTogether sources early) : carriedTogether sources early < carriedTogether sources late := by
  induction sources with
  | nil => simp [carriedTogether] at some
  | cons source rest ih =>
    have rate := (sane source (by simp)).2
    have sane' : Sane rest := fun other member => sane other (List.mem_cons_of_mem _ member)
    have split : ∀ finish, carriedTogether (source :: rest) finish =
        carriedBy finish source + carriedTogether rest finish :=
      fun finish => by simp [carriedTogether]
    rw [split] at some
    rw [split,split]
    have least : carriedBy early source ≤ carriedBy late source :=
      mul_le_mul_of_nonneg_right (max_le_max (by linarith) le_rfl) rate.le
    rcases le_or_gt early source.firstByte with idle | busy
    · rw [carried_late idle] at some ⊢
      have more := ih sane' (by linarith)
      have nonneg : 0 ≤ carriedBy late source := carried_nonneg rate
      linarith
    · have more : carriedBy early source < carriedBy late source := by
        rw [carried_early busy.le,carried_early (by linarith)]
        have scaled := mul_lt_mul_of_pos_right before rate
        linarith
      have rests := together_mono sane' before.le
      linarith

theorem fillFrom_fills {bytes : ℚ} (sources : List Timed) :
    ∀ {source : Timed} {weighted rates : ℚ}, Sane (source :: sources) →
    (source :: sources).Pairwise Sooner → 0 ≤ rates → source.firstByte * rates ≤ bytes + weighted →
    ∃ finish : ℚ, fillFrom bytes weighted rates (source :: sources) = (finish : WithTop ℚ) ∧ source.firstByte ≤ finish ∧
      finish * rates - weighted + carriedTogether (source :: sources) finish = bytes := by
  induction sources with
  | nil =>
    intro source weighted rates sane _ nonneg under
    have rate := (sane source (by simp)).2
    have positive : 0 < rates + source.rate := by linarith
    refine ⟨(bytes + (weighted + source.firstByte * source.rate)) / (rates + source.rate),rfl,?_,?_⟩
    · rw [le_div_iff₀ positive]
      linarith
    · have whole : (bytes + (weighted + source.firstByte * source.rate)) / (rates + source.rate) *
          (rates + source.rate) =
          bytes + (weighted + source.firstByte * source.rate) := div_mul_cancel₀ _ positive.ne'
      have early : source.firstByte ≤ (bytes + (weighted + source.firstByte * source.rate)) /
          (rates + source.rate) := by
        rw [le_div_iff₀ positive]
        linarith
      unfold carriedTogether
      simp only [List.map_cons,List.map_nil,List.sum_cons,List.sum_nil,carried_early early]
      linarith
  | cons next rest ih =>
    intro source weighted rates sane sorted nonneg under
    have rate := (sane source (by simp)).2
    have positive : 0 < rates + source.rate := by linarith
    have sane' : Sane (next :: rest) := fun other member => sane other (List.mem_cons_of_mem _ member)
    obtain ⟨first,sorted'⟩ := List.pairwise_cons.mp sorted
    have later : ∀ other ∈ next :: rest, next.firstByte ≤ other.firstByte := by
      intro other member
      rcases List.mem_cons.mp member with rfl | behind
      · exact le_rfl
      · exact (List.pairwise_cons.mp sorted').1 other behind
    have split : ∀ finish, carriedTogether (source :: next :: rest) finish =
        carriedBy finish source + carriedTogether (next :: rest) finish := fun finish => by simp [carriedTogether]
    have whole : (bytes + (weighted + source.firstByte * source.rate)) / (rates + source.rate) * (rates + source.rate) =
        bytes + (weighted + source.firstByte * source.rate) := div_mul_cancel₀ _ positive.ne'
    have early : source.firstByte ≤ (bytes + (weighted + source.firstByte * source.rate)) / (rates + source.rate) := by
      rw [le_div_iff₀ positive]
      linarith
    generalize reached : (bytes + (weighted + source.firstByte * source.rate)) / (rates + source.rate) = finish
      at whole early
    unfold fillFrom
    dsimp only
    rw [reached]
    by_cases done : finish ≤ next.firstByte
    · refine ⟨finish,if_pos done,early,?_⟩
      rw [split,together_late fun other member => le_trans done (later other member),carried_early early]
      linarith
    · have under' : next.firstByte * (rates + source.rate) ≤ bytes + (weighted + source.firstByte * source.rate) := by
        rw [← whole]
        exact mul_le_mul_of_nonneg_right (not_le.mp done).le positive.le
      obtain ⟨finish',filled,ahead,carried⟩ := ih sane' sorted' positive.le under'
      have before : source.firstByte ≤ finish' := le_trans (first next (by simp)) ahead
      refine ⟨finish',(if_neg done).trans filled,before,?_⟩
      rw [split,carried_early before]
      linarith
theorem waterFill_fills (some : sources ≠ []) (sane : Sane sources) {bytes : ℚ} (nonneg : 0 ≤ bytes) :
    ∃ finish : ℚ, waterFill sources bytes = (finish : WithTop ℚ) ∧ carriedTogether sources finish = bytes := by
  have permuted := List.perm_insertionSort Sooner sources
  have sorted := List.pairwise_insertionSort Sooner sources
  change ∃ finish : ℚ, fillFrom bytes 0 0 (sources.insertionSort Sooner) = (finish : WithTop ℚ) ∧ _
  cases order : sources.insertionSort Sooner with
  | nil =>
    rw [order] at permuted
    exact absurd permuted.symm.eq_nil some
  | cons source rest =>
    rw [order] at permuted sorted
    have sane' : Sane (source :: rest) := fun other member => sane other (permuted.subset member)
    obtain ⟨finish,filled,_,carried⟩ := @fillFrom_fills bytes rest source 0 0 sane' sorted le_rfl
      (by linarith)
    refine ⟨finish,filled,?_⟩
    have same : carriedTogether sources finish = carriedTogether (source :: rest) finish := (permuted.map _).sum_eq.symm
    rw [same]
    linarith
theorem finish_unique (sane : Sane sources) {bytes finish other : ℚ} (some : 0 < bytes)
    (filled : carriedTogether sources finish = bytes)
    (same : carriedTogether sources other = bytes) : other = finish := by
  rcases lt_trichotomy other finish with sooner | equal | later
  · have strict := together_strict sane sooner (by rw [same]; exact some)
    linarith
  · exact equal
  · have strict := together_strict sane later (by rw [filled]; exact some)
    linarith
theorem no_sooner {finish : ℚ} (sources : List Timed) :
    ∀ (parts : List ℚ), Sane sources → parts.length = sources.length →
    (∀ part ∈ parts, 0 ≤ part) → carriedTogether sources finish ≤ parts.sum → 0 < parts.sum →
    ∃ given ∈ sources.zip parts, 0 < given.2 ∧ finish ≤ given.1.firstByte + given.2 / given.1.rate := by
  induction sources with
  | nil =>
    intro parts _ length _ _ some
    rw [List.length_eq_zero_iff.mp length] at some
    simp at some
  | cons source rest ih =>
    intro parts sane length nonneg least some
    cases parts with
    | nil => simp at length
    | cons part parts =>
      have rate := (sane source (by simp)).2
      have sane' : Sane rest := fun other member => sane other (List.mem_cons_of_mem _ member)
      have first := nonneg part (by simp)
      have nonneg' : ∀ other ∈ parts, 0 ≤ other := fun other member => nonneg other (List.mem_cons_of_mem _ member)
      have split : carriedTogether (source :: rest) finish = carriedBy finish source + carriedTogether rest finish := by
        simp [carriedTogether]
      have carried : 0 ≤ carriedBy finish source := carried_nonneg rate
      rw [List.sum_cons] at least some
      rw [split] at least
      -- The first source is late itself, or it leaves the rest no less than they carry.
      by_cases late : 0 < part ∧ finish ≤ source.firstByte + part / source.rate
      · exact ⟨(source,part),by simp,late⟩
      · have less : part ≤ carriedBy finish source := by
          rcases eq_or_lt_of_le first with zero | positive
          · rw [← zero]
            exact carried
          · have early : source.firstByte + part / source.rate < finish := by
              by_contra not
              exact late ⟨positive,not_lt.mp not⟩
            have quotient : 0 < part / source.rate := div_pos positive rate
            have scaled : part / source.rate < finish - source.firstByte := by linarith
            rw [div_lt_iff₀ rate] at scaled
            rw [carried_early (by linarith),← sub_mul]
            exact scaled.le
        have rests : 0 ≤ parts.sum := List.sum_nonneg nonneg'
        have filled : 0 < parts.sum := by
          rcases eq_or_lt_of_le rests with zero | positive
          · -- Nothing is left for the rest, so the first source carries it all.
            have together : 0 ≤ carriedTogether rest finish := by
              refine List.sum_nonneg fun value member => ?_
              obtain ⟨other,inside,rfl⟩ := List.mem_map.mp member
              exact carried_nonneg (sane' other inside).2
            have positive : 0 < part := by linarith
            have early : source.firstByte + part / source.rate < finish := by
              by_contra not
              exact late ⟨positive,not_lt.mp not⟩
            have scaled : part / source.rate < finish - source.firstByte := by linarith
            rw [div_lt_iff₀ rate] at scaled
            have quotient : 0 < part / source.rate := div_pos positive rate
            rw [carried_early (by linarith),← sub_mul] at least
            linarith
          · exact positive
        obtain ⟨given,member,late'⟩ := ih parts sane' (by simpa using length) nonneg' (by linarith) filled
        exact ⟨given,List.mem_cons_of_mem _ member,late'⟩

/-! ### Rounding -/

def floors (shares : List ℚ) : List Nat := shares.map (fun share => ⌊share⌋.toNat)
def fraction (shares : List ℚ) (index : Nat) : ℚ := shares.getD index 0 - ⌊shares.getD index 0⌋
/-- The larger remainder goes first, then the earlier source. -/
def Ahead (shares : List ℚ) (a b : Nat) : Prop :=
  fraction shares b < fraction shares a ∨ (fraction shares b = fraction shares a ∧ a ≤ b)
instance (shares : List ℚ) : DecidableRel (Ahead shares) := fun _ _ => inferInstanceAs (Decidable (_ ∨ _))
def remainderOrder (shares : List ℚ) : List Nat := (List.range shares.length).insertionSort (Ahead shares)
/-- The counts and what the rounding pass leaves over. -/
def rounded (shares : List ℚ) (needed : Nat) : List Nat × Nat :=
  placeRest (floors shares) (needed - (floors shares).sum) (remainderOrder shares)
theorem apportion_eq (shares : List ℚ) (needed : Nat) : apportion shares needed =
    (trimTail ((rounded shares needed).1.modify 0 (· + (rounded shares needed).2))
      (((rounded shares needed).1.modify 0 (· + (rounded shares needed).2)).sum - needed)).1 := rfl

instance (shares : List ℚ) : Std.Total (Ahead shares) where
  total a b := by
    unfold Ahead
    rcases lt_trichotomy (fraction shares a) (fraction shares b) with less | equal | more
    · exact .inr (.inl less)
    · rcases Nat.le_total a b with order | order
      · exact .inl (.inr ⟨equal.symm,order⟩)
      · exact .inr (.inr ⟨equal,order⟩)
    · exact .inl (.inl more)
instance (shares : List ℚ) : IsTrans Nat (Ahead shares) where
  trans a b c := by
    unfold Ahead
    rintro (less | ⟨equal,order⟩) (less' | ⟨equal',order'⟩)
    · exact .inl (less'.trans less)
    · exact .inl (by rw [equal']; exact less)
    · exact .inl (by rw [← equal]; exact less')
    · exact .inr ⟨equal'.trans equal,order.trans order'⟩

theorem fraction_bounds (shares : List ℚ) (index : Nat) : 0 ≤ fraction shares index ∧ fraction shares index < 1 := by
  unfold fraction
  have low := Int.floor_le (shares.getD index 0)
  have high := Int.lt_floor_add_one (shares.getD index 0)
  constructor <;> linarith
theorem placeRest_places (order : List Nat) : ∀ (counts : List Nat) (left : Nat), order.Nodup →
    (∀ index ∈ order, index < counts.length) → (placeRest counts left order).2 = left - order.length ∧
      ∀ index, (placeRest counts left order).1.getD index 0 =
        counts.getD index 0 + if index ∈ order.take left then 1 else 0 := by
  induction order with
  | nil => intro counts left _ _; exact ⟨rfl,by simp [placeRest]⟩
  | cons first order ih =>
    intro counts left distinct inside
    obtain ⟨fresh,distinct'⟩ := List.nodup_cons.mp distinct
    unfold placeRest
    by_cases none : left = 0
    · rw [if_pos none,none]
      exact ⟨by simp,by simp⟩
    · rw [if_neg none]
      obtain ⟨rest,places⟩ := ih (counts.modify first (· + 1)) (left - 1) distinct'
        (fun index member => by simpa using inside index (List.mem_cons_of_mem _ member))
      obtain ⟨more,rfl⟩ : ∃ more, left = more + 1 := ⟨left - 1,by omega⟩
      refine ⟨by rw [rest,List.length_cons]; omega,fun index => ?_⟩
      rw [places,List.take_succ_cons,Nat.add_sub_cancel]
      have bound := inside first (by simp)
      by_cases own : index = first
      · subst own
        have absent : index ∉ order.take more := fun member => fresh (List.mem_of_mem_take member)
        rw [if_neg absent,if_pos (by simp)]
        simp [List.getD_eq_getElem?_getD,List.getElem?_eq_getElem bound]
      · have same : (counts.modify first (· + 1)).getD index 0 = counts.getD index 0 := by
          simp [List.getD_eq_getElem?_getD,Ne.symm own]
        rw [same]
        simp [own]
theorem trimTail_zero (counts : List Nat) : (trimTail counts 0).1 = counts ∧ (trimTail counts 0).2 = 0 := by
  induction counts with
  | nil => exact ⟨rfl,rfl⟩
  | cons count rest ih =>
    unfold trimTail
    dsimp only
    rw [ih.1,ih.2]
    simp
theorem take_positive {f : Nat → ℚ} (order : List Nat) : ∀ left, order.Pairwise (fun a b => f b ≤ f a) →
    left ≤ (order.filter (fun index => 0 < f index)).length → ∀ index ∈ order.take left, 0 < f index := by
  induction order with
  | nil => intro left _ _ index member; simp at member
  | cons first order ih =>
    intro left falling few index member
    obtain ⟨below,falling'⟩ := List.pairwise_cons.mp falling
    by_cases positive : 0 < f first
    · rw [List.filter_cons_of_pos (by simpa using positive),List.length_cons] at few
      cases left with
      | zero => simp at member
      | succ left =>
        rw [List.take_succ_cons] at member
        rcases List.mem_cons.mp member with rfl | later
        · exact positive
        · exact ih left falling' (by omega) index later
    · have none : (first :: order).filter (fun index => 0 < f index) = [] := by
        refine List.filter_eq_nil_iff.mpr fun other inside => ?_
        rw [decide_eq_true_eq,not_lt]
        rcases List.mem_cons.mp inside with rfl | later
        · exact not_lt.mp positive
        · exact le_trans (below other later) (not_lt.mp positive)
      rw [none,List.length_nil,Nat.le_zero] at few
      rw [few,List.take_zero] at member
      cases member
theorem sum_le_positive {f : Nat → ℚ} (bounds : ∀ index, 0 ≤ f index ∧ f index < 1) (order : List Nat) :
    (order.map f).sum ≤ (order.filter (fun index => 0 < f index)).length := by
  induction order with
  | nil => simp
  | cons first order ih =>
    rw [List.map_cons,List.sum_cons]
    by_cases positive : 0 < f first
    · rw [List.filter_cons_of_pos (by simpa using positive),List.length_cons]
      have less := (bounds first).2
      push_cast
      linarith
    · rw [List.filter_cons_of_neg (by simpa using positive)]
      linarith
theorem range_getD (shares : List ℚ) : (List.range shares.length).map (fun index => shares.getD index 0) = shares := by
  refine List.ext_getElem (by simp) fun index inside inside' => ?_
  simp [List.getD_eq_getElem?_getD,List.getElem?_eq_getElem inside']
theorem cast_sum (counts : List Nat) : (counts.map (fun n : Nat => (n : ℚ))).sum = (counts.sum : ℚ) := by
  induction counts with
  | nil => rfl
  | cons count rest ih => rw [List.map_cons,List.sum_cons,ih,List.sum_cons,Nat.cast_add]
theorem floors_getD (shares : List ℚ) (index : Nat) : (floors shares).getD index 0 = ⌊shares.getD index 0⌋.toNat := by
  unfold floors
  rw [List.getD_eq_getElem?_getD,List.getElem?_map,List.getD_eq_getElem?_getD]
  cases shares[index]? <;> simp

section
variable {shares : List ℚ} (nonneg : ∀ share ∈ shares, 0 ≤ share)
include nonneg

theorem floor_add_fraction (index : Nat) :
    shares.getD index 0 = ((floors shares).getD index 0 : ℚ) + fraction shares index := by
  have least : 0 ≤ shares.getD index 0 := by
    rw [List.getD_eq_getElem?_getD]
    cases found : shares[index]? with
    | none => exact le_rfl
    | some share => exact nonneg share (List.mem_of_getElem? found)
  have whole : ((⌊shares.getD index 0⌋.toNat : ℤ) : ℚ) = (⌊shares.getD index 0⌋ : ℚ) := by
    rw [Int.toNat_of_nonneg (Int.floor_nonneg.mpr least)]
  rw [floors_getD]
  unfold fraction
  push_cast at whole
  linarith
theorem fractions_sum : (((remainderOrder shares).map (fraction shares)).sum : ℚ) =
    shares.sum - ((floors shares).sum : ℚ) := by
  have permuted := List.perm_insertionSort (Ahead shares) (List.range shares.length)
  have same : ((remainderOrder shares).map (fraction shares)).sum =
      ((List.range shares.length).map (fraction shares)).sum :=
    (permuted.map _).sum_eq
  have each : (List.range shares.length).map (fun index => shares.getD index 0) =
      (List.range shares.length).map (fun index => ((floors shares).getD index 0 : ℚ) + fraction shares index) :=
    List.map_congr_left fun index _ => floor_add_fraction nonneg index
  have total := congrArg List.sum each
  rw [range_getD,List.sum_map_add] at total
  have counted : ((List.range shares.length).map (fun index => ((floors shares).getD index 0 : ℚ))).sum =
      ((floors shares).sum : ℚ) := by
    have long : (floors shares).length = shares.length := by simp [floors]
    have list : (List.range shares.length).map (fun index => (floors shares).getD index 0) = floors shares := by
      rw [← long]
      refine List.ext_getElem (by simp) fun index inside inside' => ?_
      simp [List.getD_eq_getElem?_getD,List.getElem?_eq_getElem inside']
    calc ((List.range shares.length).map (fun index => ((floors shares).getD index 0 : ℚ))).sum
        = (((List.range shares.length).map (fun index => (floors shares).getD index 0)).map
          (fun n : Nat => (n : ℚ))).sum := by
          rw [List.map_map]
          rfl
      _ = ((floors shares).sum : ℚ) := by rw [list,cast_sum]
  rw [same]
  linarith
theorem floors_le : ((floors shares).sum : ℚ) ≤ shares.sum := by
  have total := fractions_sum nonneg
  have least : 0 ≤ ((remainderOrder shares).map (fraction shares)).sum := by
    refine List.sum_nonneg fun value member => ?_
    obtain ⟨index,_,rfl⟩ := List.mem_map.mp member
    exact (fraction_bounds shares index).1
  linarith
theorem left_few {needed : Nat} (low : (needed : ℚ) - 1 < shares.sum) (high : shares.sum ≤ needed) :
    needed - (floors shares).sum ≤
      ((remainderOrder shares).filter (fun index => 0 < fraction shares index)).length := by
  have whole : (floors shares).sum ≤ needed := by exact_mod_cast (floors_le nonneg).trans high
  have total := fractions_sum nonneg
  have few := sum_le_positive (fraction_bounds shares) (remainderOrder shares)
  have left : ((needed - (floors shares).sum : Nat) : ℚ) = needed - ((floors shares).sum : ℚ) := Nat.cast_sub whole
  have less : ((needed - (floors shares).sum : Nat) : ℚ) <
      (((remainderOrder shares).filter (fun index => 0 < fraction shares index)).length + 1 : Nat) := by
    push_cast
    rw [left]
    linarith
  exact Nat.lt_succ_iff.mp (by exact_mod_cast less)
end

theorem remainderOrder_falls (shares : List ℚ) :
    (remainderOrder shares).Pairwise (fun a b => fraction shares b ≤ fraction shares a) := by
  refine (List.pairwise_insertionSort (Ahead shares) (List.range shares.length)).imp fun {a b} ahead => ?_
  rcases ahead with less | ⟨equal,_⟩
  · exact less.le
  · exact equal.le
theorem remainderOrder_perm (shares : List ℚ) : (remainderOrder shares).Perm (List.range shares.length) :=
  List.perm_insertionSort _ _

/-- What the rounding pass comes to when the shares add up to the pieces, all but a
    fraction of one: it places all that is left, and nothing is cut. -/
structure Placed (shares : List ℚ) (needed : Nat) : Prop where
  left : (rounded shares needed).2 = 0
  excess : (rounded shares needed).1.sum - needed = 0
  counts : apportion shares needed = (rounded shares needed).1
  near : ∀ index, ((apportion shares needed).getD index 0 : ℚ) < shares.getD index 0 + 1
  idle : ∀ index, shares.getD index 0 = 0 → (apportion shares needed).getD index 0 = 0
theorem rest_placed {shares : List ℚ} (nonneg : ∀ share ∈ shares, 0 ≤ share) {needed : Nat}
    (low : (needed : ℚ) - 1 < shares.sum) (high : shares.sum ≤ needed) : Placed shares needed := by
  have permuted := remainderOrder_perm shares
  have long : (floors shares).length = shares.length := by simp [floors]
  have inside : ∀ index ∈ remainderOrder shares, index < (floors shares).length := by
    intro index member
    rw [long]
    exact List.mem_range.mp (permuted.subset member)
  have few := left_few nonneg low high
  obtain ⟨beyond,places⟩ := placeRest_places (remainderOrder shares) (floors shares) (needed - (floors shares).sum)
    (permuted.nodup_iff.mpr List.nodup_range) inside
  have left : (rounded shares needed).2 = 0 := by
    change (placeRest _ _ _).2 = 0
    rw [beyond]
    have part := List.length_filter_le (fun index => decide (0 < fraction shares index)) (remainderOrder shares)
    omega
  have whole : (floors shares).sum ≤ needed := by exact_mod_cast (floors_le nonneg).trans high
  have sum : (rounded shares needed).1.sum = needed := by
    have total := (place_rest_sum (remainderOrder shares) (floors shares) (needed - (floors shares).sum) inside).1
    change (rounded shares needed).1.sum + (rounded shares needed).2 = _ at total
    omega
  have counts : apportion shares needed = (rounded shares needed).1 := by
    have same : (rounded shares needed).1.modify 0 (· + 0) = (rounded shares needed).1 := by
      cases (rounded shares needed).1 with
      | nil => rfl
      | cons count rest => rfl
    rw [apportion_eq,left,same,sum,Nat.sub_self]
    exact (trimTail_zero _).1
  have bumped := take_positive (remainderOrder shares) (needed - (floors shares).sum) (remainderOrder_falls shares) few
  have each : ∀ index, (apportion shares needed).getD index 0 =
      (floors shares).getD index 0 + if index ∈ (remainderOrder shares).take (needed - (floors shares).sum) then 1
        else 0 := by
    intro index
    rw [counts]
    exact places index
  refine ⟨left,by omega,counts,fun index => ?_,fun index zero => ?_⟩
  · have exact := floor_add_fraction nonneg index
    have bounds := fraction_bounds shares index
    rw [each]
    split_ifs with more
    · have positive := bumped index more
      push_cast
      linarith
    · push_cast
      linarith
  · have flat : fraction shares index = 0 := by
      unfold fraction
      rw [zero]
      simp
    have none : index ∉ (remainderOrder shares).take (needed - (floors shares).sum) := by
      intro more
      have positive := bumped index more
      rw [flat] at positive
      exact lt_irrefl _ positive
    rw [each,if_neg none,floors_getD,zero]
    simp

/-! ### Bytes -/

theorem pieceBytes_le (size pieceSize index : Nat) : pieceBytes size pieceSize index ≤ pieceSize := by
  unfold pieceBytes
  omega
theorem pieceBytes_some {size pieceSize index : Nat} (positive : 0 < pieceSize) (within : index * pieceSize < size) :
    0 < pieceBytes size pieceSize index := by
  unfold pieceBytes
  omega
theorem pieceBytes_full {size pieceSize index later : Nat} (before : index < later)
    (within : later * pieceSize < size) :
    pieceBytes size pieceSize index = pieceSize := by
  have ended : (index + 1) * pieceSize ≤ later * pieceSize := Nat.mul_le_mul_right _ before
  rw [Nat.add_one_mul] at ended
  unfold pieceBytes
  omega
theorem bytes_le (size pieceSize : Nat) (needed : List Nat) :
    (needed.map (pieceBytes size pieceSize)).sum ≤ needed.length * pieceSize := by
  induction needed with
  | nil => simp
  | cons index rest ih =>
    have most := pieceBytes_le size pieceSize index
    rw [List.map_cons,List.sum_cons,List.length_cons,Nat.add_one_mul]
    omega
theorem bytes_least {size pieceSize : Nat} (positive : 0 < pieceSize) (needed : List Nat) : needed ≠ [] →
    needed.Pairwise (· < ·) → (∀ index ∈ needed, index * pieceSize < size) →
    needed.length * pieceSize < (needed.map (pieceBytes size pieceSize)).sum + pieceSize := by
  induction needed with
  | nil => intro some; exact absurd rfl some
  | cons index rest ih =>
    intro _ ascending within
    obtain ⟨first,ascending'⟩ := List.pairwise_cons.mp ascending
    cases rest with
    | nil =>
      have some := pieceBytes_some positive (within index (by simp))
      simp
      omega
    | cons next rest =>
      have full := pieceBytes_full (first next (by simp)) (within next (by simp))
      have later := ih (by simp) ascending' (fun other member => within other (List.mem_cons_of_mem _ member))
      rw [List.map_cons,List.sum_cons,List.length_cons,Nat.add_one_mul,full]
      omega
theorem deal_counted (size : Nat) (sources : List Timed) :
    ∀ (counts needed : List Nat), counts.length = sources.length →
    counts.sum = needed.length → ∀ a ∈ deal size (commitmentPieceSize size) sources counts needed,
    ∃ given ∈ sources.zip counts, Worked size needed given.1 a ∧ given.2 ≠ 0 ∧
      a.bytes ≤ given.2 * commitmentPieceSize size := by
  induction sources with
  | nil => intro counts needed _ _ a member; simp [deal] at member
  | cons source sources ih =>
    intro counts needed length sum a member
    cases counts with
    | nil => simp at length
    | cons count counts =>
      have lengths : counts.length = sources.length := by simpa using length
      unfold deal at member
      split_ifs at member with zero
      · obtain ⟨given,inside,worked⟩ := ih counts needed lengths (by simpa [zero] using sum) a member
        exact ⟨given,List.mem_cons_of_mem _ inside,worked⟩
      · have some : needed ≠ [] := by
          rintro rfl
          simp at sum
          omega
        rcases List.mem_cons.mp member with rfl | later
        · refine ⟨(source,count),by simp,worked_take source some zero (List.Sublist.refl _),zero,?_⟩
          exact (bytes_le size _ _).trans (Nat.mul_le_mul_right _ (List.length_take_le _ _))
        · obtain ⟨given,inside,worked,positive,few⟩ := ih counts (needed.drop count) lengths
            (by rw [List.length_drop,← sum,List.sum_cons]; omega) a later
          exact ⟨given,List.mem_cons_of_mem _ inside,worked.widen (List.drop_sublist _ _),positive,few⟩

/-! ### A split -/

/-- The share of each source at a finish time, in pieces. -/
def sharesAt (size : Nat) (sources : List Timed) (finish : ℚ) : List ℚ :=
  sources.map (fun source => carriedBy finish source / commitmentPieceSize size)
theorem split_at {input : PlanInput} {finish : ℚ}
    (filled : waterFill sources
      ((input.needed.map (pieceBytes input.size (commitmentPieceSize input.size))).sum : Nat) =
      (finish : WithTop ℚ)) :
    split input sources = planOf (deal input.size (commitmentPieceSize input.size) sources
      (apportion (sharesAt input.size sources finish) input.needed.length) input.needed) input.availableMs := by
  unfold split
  dsimp only
  rw [filled]
  rfl
theorem sharesAt_sum (size : Nat) (sources : List Timed) (finish : ℚ) :
    (sharesAt size sources finish).sum = carriedTogether sources finish / commitmentPieceSize size := by
  unfold sharesAt carriedTogether
  induction sources with
  | nil => simp
  | cons source rest ih =>
    rw [List.map_cons,List.sum_cons,ih,List.map_cons,List.sum_cons,add_div]
theorem sharesAt_getD {size : Nat} {sources : List Timed} {finish : ℚ} {index : Nat} (inside : index < sources.length) :
    (sharesAt size sources finish).getD index 0 = carriedBy finish sources[index] / commitmentPieceSize size := by
  simp [sharesAt,List.getD_eq_getElem?_getD,inside]
/-- A source's assignment holds less than a piece over what it carries, and only a source
    that carries something has one. -/
theorem split_near {input : PlanInput} (sane : Sane sources) {finish : ℚ}
    (placed : Placed (sharesAt input.size sources finish) input.needed.length) {given : Timed × Nat} {a : Assignment}
    (member : given ∈ sources.zip (apportion (sharesAt input.size sources finish) input.needed.length))
    (worked : Worked input.size input.needed given.1 a) (positive : given.2 ≠ 0)
    (few : a.bytes ≤ given.2 * commitmentPieceSize input.size) :
    given.1.firstByte < finish ∧ a.projectedMs ≤ finish + commitmentPieceSize input.size / given.1.rate := by
  obtain ⟨index,inside,rfl⟩ := List.mem_iff_getElem.mp member
  rw [List.length_zip] at inside
  have first : index < sources.length := by omega
  rw [List.getElem_zip] at worked positive few ⊢
  dsimp only at worked positive few ⊢
  have rate := (sane _ (List.getElem_mem first)).2
  have piece : (0 : ℚ) < commitmentPieceSize input.size := by exact_mod_cast pieceSize_pos input.size
  have listed : (apportion (sharesAt input.size sources finish) input.needed.length).getD index 0 =
      (apportion (sharesAt input.size sources finish) input.needed.length)[index] := by
    rw [List.getD_eq_getElem?_getD,List.getElem?_eq_getElem]
    rfl
  have share := @sharesAt_getD input.size sources finish index first
  have early : sources[index].firstByte < finish := by
    by_contra late
    refine positive ?_
    rw [← listed]
    refine placed.idle index ?_
    rw [share,carried_late (not_lt.mp late),zero_div]
  refine ⟨early,?_⟩
  have near := placed.near index
  rw [listed,share,carried_early early.le] at near
  have scaled := mul_le_mul_of_nonneg_right near.le piece.le
  rw [add_mul,div_mul_cancel₀ _ piece.ne',one_mul] at scaled
  have carried : (a.bytes : ℚ) ≤
      (apportion (sharesAt input.size sources finish) input.needed.length)[index] * commitmentPieceSize input.size := by
    exact_mod_cast few
  have most : (a.bytes : ℚ) / sources[index].rate ≤
      finish - sources[index].firstByte + commitmentPieceSize input.size / sources[index].rate := by
    rw [div_le_iff₀ rate,add_mul,div_mul_cancel₀ _ rate.ne',sub_mul]
    linarith
  rw [worked.projected]
  linarith

/-- For every list of sources with sane estimates and every ascending list of pieces of
    the object, neither empty: water filling returns the one time at which the sources
    together carry the bytes; no division of the bytes, however fine, is done before it;
    every assignment goes to a source whose first byte comes before that time and is
    projected within one piece of it; and the rounding pass places every piece that is
    left and has nothing to cut. -/
theorem split_optimal (input : PlanInput) (sources : List Timed) (some : sources ≠ []) (sane : Sane sources)
    (filled : input.needed ≠ []) (ascending : input.needed.Pairwise (· < ·))
    (within : ∀ index ∈ input.needed, index * commitmentPieceSize input.size < input.size) :
    ∃ finish : ℚ,
      waterFill sources ((input.needed.map (pieceBytes input.size (commitmentPieceSize input.size))).sum : Nat) =
        (finish : WithTop ℚ) ∧
      (∀ other, carriedTogether sources other =
          ((input.needed.map (pieceBytes input.size (commitmentPieceSize input.size))).sum : Nat) ↔ other = finish) ∧
      (∀ parts : List ℚ, parts.length = sources.length → (∀ part ∈ parts, 0 ≤ part) →
        parts.sum = ((input.needed.map (pieceBytes input.size (commitmentPieceSize input.size))).sum : Nat) →
        ∃ given ∈ sources.zip parts, 0 < given.2 ∧ finish ≤ given.1.firstByte + given.2 / given.1.rate) ∧
      (∀ a ∈ (split input sources).assignments, ∃ source ∈ sources, Worked input.size input.needed source a ∧
        source.firstByte < finish ∧ a.projectedMs ≤ finish + commitmentPieceSize input.size / source.rate) ∧
      (rounded (sharesAt input.size sources finish) input.needed.length).2 = 0 ∧
      (rounded (sharesAt input.size sources finish) input.needed.length).1.sum - input.needed.length = 0 := by
  have piece := pieceSize_pos input.size
  have least := bytes_least piece input.needed filled ascending within
  have most := bytes_le input.size (commitmentPieceSize input.size) input.needed
  have pieces : 0 < input.needed.length := List.length_pos_iff.mpr filled
  generalize total : (input.needed.map (pieceBytes input.size (commitmentPieceSize input.size))).sum = bytes
    at least most ⊢
  have positive : 0 < bytes := by
    have one : 1 * commitmentPieceSize input.size ≤ input.needed.length * commitmentPieceSize input.size :=
      Nat.mul_le_mul_right _ pieces
    omega
  have positive' : (0 : ℚ) < bytes := by exact_mod_cast positive
  have piece' : (0 : ℚ) < commitmentPieceSize input.size := by exact_mod_cast piece
  obtain ⟨finish,water,carried⟩ := waterFill_fills some sane positive'.le
  have nonneg : ∀ share ∈ sharesAt input.size sources finish, 0 ≤ share := by
    intro share member
    obtain ⟨source,inside,rfl⟩ := List.mem_map.mp member
    exact div_nonneg (carried_nonneg (sane source inside).2) piece'.le
  have sum := sharesAt_sum input.size sources finish
  rw [carried] at sum
  have placed : Placed (sharesAt input.size sources finish) input.needed.length := by
    refine rest_placed nonneg ?_ ?_
    · rw [sum,lt_div_iff₀ piece',sub_mul,one_mul]
      have scaled : (input.needed.length : ℚ) * commitmentPieceSize input.size <
          bytes + commitmentPieceSize input.size := by
        exact_mod_cast least
      linarith
    · rw [sum,div_le_iff₀ piece']
      exact_mod_cast most
  refine ⟨finish,water,fun other => ⟨fun same => finish_unique sane positive' carried same,fun same => same ▸ carried⟩,
    ?_,?_,placed.left,placed.excess⟩
  · intro parts length nonneg' whole
    exact no_sooner sources parts sane length nonneg' (by rw [carried,whole]) (by rw [whole]; exact positive')
  · intro a member
    have filled_at :
        waterFill sources ((input.needed.map (pieceBytes input.size (commitmentPieceSize input.size))).sum : Nat) =
        (finish : WithTop ℚ) := by
      rw [total]
      exact water
    rw [split_at filled_at] at member
    have counts : (apportion (sharesAt input.size sources finish) input.needed.length).length = sources.length := by
      rw [apportion_length]
      simp [sharesAt]
    have listed : sharesAt input.size sources finish ≠ [] := by simpa [sharesAt] using some
    have whole := apportion_sum listed input.needed.length
    obtain ⟨given,inside,worked,dealt,few⟩ := deal_counted input.size sources _ input.needed counts whole a member
    obtain ⟨early,near⟩ := split_near sane placed inside worked dealt few
    exact ⟨given.1,(List.of_mem_zip inside).1,worked,early,near⟩
/-- Four pieces, the last one short, from a fast peer and a slow one. -/
def shortTail : PlanInput :=
  ⟨200000,[0,1,2,3],[⟨.peer 1,some 10,some 100⟩,⟨.peer 2,some 20,some 50⟩],none,none,none,5000,3⟩
def fastAndSlow : List Timed := [⟨.peer 1,10,100⟩,⟨.peer 2,20,50⟩]
theorem split_optimal_short_tail : ∃ finish : ℚ, waterFill fastAndSlow (200000 : Nat) = (finish : WithTop ℚ) ∧
    (∀ other, carriedTogether fastAndSlow other = (200000 : Nat) ↔ other = finish) ∧
    ∀ a ∈ (split shortTail fastAndSlow).assignments, ∃ source ∈ fastAndSlow, source.firstByte < finish ∧
      a.projectedMs ≤ finish + 65536 / source.rate := by
  have sane : Sane fastAndSlow := by
    intro source member
    rcases List.mem_pair.mp member with rfl | rfl <;> norm_num
  obtain ⟨finish,water,unique,_,near,_,_⟩ :=
    split_optimal shortTail fastAndSlow (by simp [fastAndSlow]) sane (by decide)
    (by decide) (by decide)
  refine ⟨finish,water,unique,fun a member => ?_⟩
  obtain ⟨source,inside,_,early,late⟩ := near a member
  exact ⟨source,inside,early,late⟩

end RelaySwarm.Planning
