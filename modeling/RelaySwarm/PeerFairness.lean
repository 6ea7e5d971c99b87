import RelaySwarm.PeerSelection
import RelaySwarm.Turns
import Mathlib.Data.List.Infix

/-!
Peer choice explores without waste or starvation, in both programs
(`choices_fair`). What `select` takes is said once (`select_spec`); from it a run
has one choice in four at turn zero (`choices_rounds`), and between two choices
nobody's selection order moves but the chosen one's (`choices_order`).
-/
namespace RelaySwarm.Choosing
variable {ι ρ : Type}

/-! ### One call -/

/-- What the records on a link say: never measured, or whether the last attempt delivered. -/
def Observation.standing (o : Observation) : Option Bool :=
  if o.attempts = 0 then none else some (decide (o.consecutiveFailures = 0))

theorem least_mem (score : ι → ℚ) (first : ι) (rest : List ι) : least score first rest ∈ first :: rest := by
  induction rest generalizing first with
  | nil => exact List.mem_singleton.mpr rfl
  | cons link rest ih =>
    unfold least at ih ⊢
    rw [List.foldl_cons]
    split
    · exact List.mem_cons_of_mem _ (ih link)
    · rcases List.mem_cons.mp (ih first) with same | later
      · rw [same]
        exact List.mem_cons_self
      · exact List.mem_cons_of_mem _ (List.mem_cons_of_mem _ later)

theorem least_le (score : ι → ℚ) (first : ι) (rest : List ι) :
    ∀ link ∈ first :: rest, score (least score first rest) ≤ score link := by
  induction rest generalizing first with
  | nil =>
    intro link member
    rw [List.mem_singleton.mp member]
    exact le_rfl
  | cons next rest ih =>
    intro link member
    have step : least score first (next :: rest) =
        least score (if score next < score first then next else first) rest := rfl
    rw [step]
    by_cases lower : score next < score first
    · rw [if_pos lower]
      rcases List.mem_cons.mp member with rfl | later
      · exact (ih next next List.mem_cons_self).trans lower.le
      · exact ih next link later
    · rw [if_neg lower]
      rcases List.mem_cons.mp member with rfl | later
      · exact ih link link List.mem_cons_self
      · rcases List.mem_cons.mp later with rfl | last
        · exact (ih first first List.mem_cons_self).trans (not_lt.mp lower)
        · exact ih first link (List.mem_cons_of_mem _ last)

section
variable [DecidableEq ι]

@[simp] theorem summary_put (s : PeerSelection ι) (link other : ι) (value : Observation) :
    summary (put s link value) other = if other = link then value else summary s other := by
  by_cases same : other = link
  · simp [summary,put,same]
  · simp [summary,put,same]
@[simp] theorem summary_markSelected (s : PeerSelection ι) (link other : ι) :
    summary (markSelected s link) other =
      if other = link then { summary s link with lastSelected := s.order + 1 } else summary s other := by
  rw [markSelected,summary_put]
  rfl
@[simp] theorem summary_forget (s : PeerSelection ι) (link other : ι) :
    summary (forget s link) other = if other = link then .default else summary s other := by
  by_cases same : other = link
  · simp [summary,forget,same]
  · simp [summary,forget,same]

theorem standing_markSelected (s : PeerSelection ι) (link other : ι) :
    (summary (markSelected s link) other).standing = (summary s other).standing := by
  rw [summary_markSelected]
  split
  · rename_i same
    rw [same]
    rfl
  · rfl
theorem record_spec (s : PeerSelection ι) (now : ℚ) (link : ι) (elapsedMs bytes : ℚ) :
    (record s now link elapsedMs bytes).turn = s.turn ∧ (record s now link elapsedMs bytes).order = s.order ∧
    ∀ other, (summary (record s now link elapsedMs bytes) other).lastSelected = (summary s other).lastSelected ∧
      (summary (record s now link elapsedMs bytes) other).standing =
        if link = other then some (decide (bytes ≠ 0)) else (summary s other).standing := by
  unfold record
  by_cases delivered : bytes ≠ 0
  · simp only [if_pos delivered]
    refine ⟨rfl,rfl,?_⟩
    intro other
    rw [summary_put]
    by_cases same : other = link
    · subst same
      simp [Observation.standing,delivered]
    · rw [if_neg same,if_neg (Ne.symm same)]
      exact ⟨rfl,rfl⟩
  · simp only [if_neg delivered]
    refine ⟨rfl,rfl,?_⟩
    intro other
    rw [summary_put]
    by_cases same : other = link
    · subst same
      simp [Observation.standing,delivered]
    · rw [if_neg same,if_neg (Ne.symm same)]
      exact ⟨rfl,rfl⟩

end

/-- What a choice takes, by the standing of the links. -/
structure Takes (s : PeerSelection ι) (eligible : List ι) (deadlineMs : Deadline) (chosen : ι) : Prop where
  member : chosen ∈ eligible
  /-- An exploration is at turn zero, or finds no sound link. -/
  explores : (summary s chosen).standing = none →
    s.turn = 0 ∨ ∀ link ∈ eligible, (summary s link).standing ≠ some true
  /-- A failing link is taken where every eligible one is failing. -/
  fails : (summary s chosen).standing = some false → ∀ link ∈ eligible, (summary s link).standing = some false
  /-- At turn zero with time left, the cold link that was selected the longest ago is taken. -/
  oldest : s.turn = 0 → 100 ≤ deadlineMs → (∃ link ∈ eligible, (summary s link).standing = none) →
    (summary s chosen).standing = none ∧
    ∀ link ∈ eligible, (summary s link).standing = none →
      (summary s chosen).lastSelected ≤ (summary s link).lastSelected

theorem mem_cold {s : PeerSelection ι} {eligible : List ι} {link : ι} :
    link ∈ cold s eligible ↔ link ∈ eligible ∧ (summary s link).standing = none := by
  unfold cold Observation.standing
  rw [List.mem_filter]
  by_cases fresh : (summary s link).attempts = 0
  · simp [fresh]
  · simp [fresh]
theorem mem_measured {s : PeerSelection ι} {eligible : List ι} {link : ι} :
    link ∈ measured s eligible ↔ link ∈ eligible ∧ (summary s link).standing ≠ none := by
  unfold measured Observation.standing
  rw [List.mem_filter]
  by_cases fresh : (summary s link).attempts = 0
  · simp [fresh]
  · simp [fresh]
theorem mem_healthy {s : PeerSelection ι} {eligible : List ι} {link : ι} :
    link ∈ healthy s eligible ↔ link ∈ eligible ∧ (summary s link).standing = some true := by
  unfold healthy measured Observation.standing
  rw [List.mem_filter,List.mem_filter]
  by_cases fresh : (summary s link).attempts = 0
  · simp [fresh]
  · simp [fresh]

theorem standing_cases (o : Observation) : o.standing = none ∨ o.standing = some true ∨ o.standing = some false := by
  cases o.standing with
  | none => exact .inl rfl
  | some good => cases good <;> simp

theorem candidates_nonempty {s : PeerSelection ι} {eligible : List ι} {deadlineMs : Deadline} (filled : eligible ≠ []) :
    candidates s eligible deadlineMs ≠ [] := by
  intro absent
  unfold candidates at absent
  split_ifs at absent with explores unsound
  · rw [explore,absent] at explores
    simp at explores
  · obtain ⟨link,member⟩ := List.exists_mem_of_ne_nil _ filled
    by_cases fresh : (summary s link).standing = none
    · apply explores
      have waits : cold s eligible ≠ [] := List.ne_nil_of_mem (mem_cold.mpr ⟨member,fresh⟩)
      simp [explore,waits,unsound]
    · exact List.ne_nil_of_mem (mem_measured.mpr ⟨member,fresh⟩) absent
  · rw [absent] at unsound
    exact unsound rfl

theorem best_takes {s : PeerSelection ι} {eligible : List ι} (size : ℚ) {deadlineMs : Deadline} {chosen : ι}
    (member : chosen ∈ candidates s eligible deadlineMs)
    (best : ∀ link ∈ candidates s eligible deadlineMs,
      score s (explore s eligible deadlineMs) size chosen ≤ score s (explore s eligible deadlineMs) size link) :
    Takes s eligible deadlineMs chosen := by
  by_cases explores : explore s eligible deadlineMs = true
  · rw [candidates,if_pos explores] at member best
    obtain ⟨own,fresh⟩ := mem_cold.mp member
    refine ⟨own,?_,?_,?_⟩
    · intro _
      simp only [explore,Bool.and_eq_true,Bool.or_eq_true,decide_eq_true_eq] at explores
      rcases explores.2 with unsound | ⟨first,_⟩
      · right
        intro link eligible sound
        have healthy := mem_healthy.mpr ⟨eligible,sound⟩
        rw [List.isEmpty_iff.mp unsound] at healthy
        exact nomatch healthy
      · exact .inl first
    · intro failing
      rw [fresh] at failing
      exact nomatch failing
    · intro _ _ _
      refine ⟨fresh,?_⟩
      intro link eligible cold
      have lower := best link (mem_cold.mpr ⟨eligible,cold⟩)
      simp only [score,explores,if_true] at lower
      exact_mod_cast lower
  · have rests : ∀ link ∈ eligible, (summary s link).standing = none →
        healthy s eligible ≠ [] ∧ ¬ (s.turn = 0 ∧ (100 : Deadline) ≤ deadlineMs) := by
      intro link eligible cold
      have waits : Choosing.cold s _ ≠ [] := List.ne_nil_of_mem (mem_cold.mpr ⟨eligible,cold⟩)
      simpa [explore,waits] using explores
    rw [candidates,if_neg explores] at member
    by_cases unsound : (healthy s eligible).isEmpty = true
    · rw [if_pos unsound] at member
      obtain ⟨own,known⟩ := mem_measured.mp member
      refine ⟨own,fun fresh => absurd fresh known,?_,?_⟩
      · intro _ link eligible
        rcases standing_cases (summary s link) with cold | sound | failing
        · exact absurd (List.isEmpty_iff.mp unsound) (rests link eligible cold).1
        · have healthy := mem_healthy.mpr ⟨eligible,sound⟩
          rw [List.isEmpty_iff.mp unsound] at healthy
          exact nomatch healthy
        · exact failing
      · rintro first early ⟨link,eligible,cold⟩
        exact absurd ⟨first,early⟩ (rests link eligible cold).2
    · rw [if_neg unsound] at member
      obtain ⟨own,sound⟩ := mem_healthy.mp member
      refine ⟨own,?_,?_,?_⟩
      · intro fresh
        rw [sound] at fresh
        exact nomatch fresh
      · intro failing
        rw [sound] at failing
        exact nomatch failing
      · rintro first early ⟨link,eligible,cold⟩
        exact absurd ⟨first,early⟩ (rests link eligible cold).2

theorem select_spec [DecidableEq ι] (s : PeerSelection ι) (eligible : List ι) (size : ℚ) (deadlineMs : Deadline) :
    (eligible = [] ∧ select s eligible size deadlineMs = (none,s)) ∨
    ∃ chosen, Takes s eligible deadlineMs chosen ∧
      select s eligible size deadlineMs = (some chosen,markSelected { s with turn := (s.turn + 1) % 4 } chosen) := by
  by_cases empty : eligible = []
  · subst empty
    exact .inl ⟨rfl,rfl⟩
  right
  cases found : candidates s eligible deadlineMs with
  | nil => exact absurd found (candidates_nonempty empty)
  | cons first rest =>
    refine ⟨least (score s (explore s eligible deadlineMs) size) first rest,?_,?_⟩
    · apply best_takes size
      · rw [found]
        exact least_mem _ first rest
      · rw [found]
        exact least_le _ first rest
    · simp [select,found,empty]

/-! ### Runs -/

section
variable [DecidableEq ι] {offers : Offers ι ρ}

/-- The records on every link say what the calls so far recorded on it. -/
def Reads (past : List (Call ι ρ)) (s : PeerSelection ι) : Prop :=
  s.turn < 4 ∧ (∀ link, (summary s link).lastSelected ≤ s.order) ∧
  ∀ link, (summary s link).standing = outcome past link

/-- A call returns a link or leaves the turn alone. -/
theorem call_cases (offers : Offers ι ρ) (past : List (Call ι ρ)) (s : PeerSelection ι) (c : Call ι ρ) :
    (∃ p, choice offers past s c = some p ∧ p.past = past ∧ p.before = s ∧
      Takes s p.eligible p.deadlineMs p.chosen ∧ (∀ link ∈ p.eligible, link ∈ c.links offers) ∧
      (call offers s c).2 = markSelected { s with turn := (s.turn + 1) % 4 } p.chosen ∧
      ∀ link, outcome (past ++ [c]) link = outcome past link) ∨
    (choice offers past s c = none ∧ (call offers s c).2.turn = s.turn ∧
      (c.Own → ∀ link, (summary (call offers s c).2 link).lastSelected = (summary s link).lastSelected)) := by
  cases c with
  | select request size deadlineMs =>
    rcases select_spec s (offers.eligible request (inTime s size deadlineMs)) size deadlineMs
      with ⟨_,taken⟩ | ⟨chosen,takes,taken⟩
    · right
      refine ⟨?_,?_,?_⟩
      · simp only [choice,call,taken,Option.map_none]
      · simp only [call,taken]
      · intro _ link
        simp only [call,taken]
    · left
      refine ⟨⟨past,s,_,deadlineMs,chosen⟩,?_,rfl,rfl,takes,fun _ member => offers.subset _ _ member,?_,?_⟩
      · simp only [choice,call,taken,Option.map_some]
      · simp only [call,taken]
      · intro link
        simp [outcome]
  | record now link elapsedMs bytes =>
    obtain ⟨turn,_,each⟩ := record_spec s now link elapsedMs bytes
    exact .inr ⟨rfl,turn,fun _ other => (each other).1⟩
  | markSelected link => exact .inr ⟨rfl,rfl,fun own => own.elim⟩
  | forget link => exact .inr ⟨rfl,rfl,fun own => own.elim⟩

theorem reads_new : Reads ([] : List (Call ι ρ)) (new : PeerSelection ι) := by
  exact ⟨Nat.zero_lt_succ 3,fun _ => le_rfl,fun _ => rfl⟩

theorem reads_markSelected {past : List (Call ι ρ)} {s : PeerSelection ι} (reads : Reads past s) (link : ι) :
    (∀ other, (summary (markSelected s link) other).lastSelected ≤ s.order + 1) ∧
    ∀ other, (summary (markSelected s link) other).standing = outcome past other := by
  constructor
  · intro other
    rw [summary_markSelected]
    split
    · exact le_rfl
    · exact (reads.2.1 other).trans (Nat.le_succ _)
  · intro other
    rw [standing_markSelected]
    exact reads.2.2 other

theorem reads_call {past : List (Call ι ρ)} {s : PeerSelection ι} (reads : Reads past s) (c : Call ι ρ) :
    Reads (past ++ [c]) (call offers s c).2 := by
  cases c with
  | select request size deadlineMs =>
    have same : ∀ link, outcome (past ++ [.select request size deadlineMs]) link = outcome past link := by
      simp [outcome]
    rcases select_spec s (offers.eligible request (inTime s size deadlineMs)) size deadlineMs
      with ⟨_,taken⟩ | ⟨chosen,takes,taken⟩
    · simp only [call,taken]
      exact ⟨reads.1,reads.2.1,fun link => (reads.2.2 link).trans (same link).symm⟩
    · have turned : Reads past { s with turn := (s.turn + 1) % 4 } := ⟨Nat.mod_lt _ (by decide),reads.2.1,reads.2.2⟩
      have marked := reads_markSelected turned chosen
      simp only [call,taken]
      exact ⟨turned.1,marked.1,fun link => (marked.2 link).trans (same link).symm⟩
  | record now link elapsedMs bytes =>
    obtain ⟨turn,order,each⟩ := record_spec s now link elapsedMs bytes
    refine ⟨turn ▸ reads.1,?_,?_⟩
    · intro other
      simp only [call]
      rw [(each other).1,order]
      exact reads.2.1 other
    · intro other
      simp only [call]
      rw [(each other).2,reads.2.2 other]
      simp [outcome]
  | markSelected link =>
    have marked := reads_markSelected reads link
    refine ⟨reads.1,marked.1,?_⟩
    intro other
    rw [call,marked.2 other]
    simp [outcome]
  | forget link =>
    refine ⟨reads.1,?_,?_⟩
    · intro other
      simp only [call,summary_forget]
      split
      · exact Nat.zero_le _
      · exact reads.2.1 other
    · intro other
      simp only [call,summary_forget]
      by_cases same : other = link
      · simp [same,outcome,Observation.standing,Observation.default]
      · rw [if_neg same,reads.2.2 other]
        simp [outcome,Ne.symm same]

theorem choices_hold {P : List (Call ι ρ) → PeerSelection ι → Prop} {past : List (Call ι ρ)} {s : PeerSelection ι}
    {calls : List (Call ι ρ)} (start : P past s)
    (step : ∀ past s c, c ∈ calls → P past s → P (past ++ [c]) (call offers s c).2) :
    ∀ p ∈ choices offers past s calls, P p.past p.before ∧ Takes p.before p.eligible p.deadlineMs p.chosen ∧
      ∃ c ∈ calls, ∀ link ∈ p.eligible, link ∈ c.links offers := by
  induction calls generalizing past s with
  | nil => exact fun _ member => nomatch member
  | cons c rest ih =>
    intro p member
    rcases List.mem_append.mp member with first | later
    · rcases call_cases offers past s c with ⟨q,made,own,here,takes,named,_⟩ | ⟨absent,_,_⟩
      · rw [made] at first
        obtain rfl : p = q := List.mem_singleton.mp first
        rw [own,here]
        exact ⟨start,takes,c,List.mem_cons_self,named⟩
      · rw [absent] at first
        exact nomatch first
    · have next := step past s c List.mem_cons_self start
      obtain ⟨holds,takes,d,inside,named⟩ :=
        ih next (fun past s d inside => step past s d (List.mem_cons_of_mem _ inside)) p later
      exact ⟨holds,takes,d,List.mem_cons_of_mem _ inside,named⟩

/-- What holds between each choice and the next, from the state a choice leaves and the quiet calls after it. -/
theorem choices_chain {R : Choice ι ρ → PeerSelection ι → Prop} {P : List (Call ι ρ) → PeerSelection ι → Prop}
    {past : List (Call ι ρ)} {s : PeerSelection ι} {calls : List (Call ι ρ)} (start : P past s)
    (step : ∀ past s c, c ∈ calls → P past s → P (past ++ [c]) (call offers s c).2)
    (made : ∀ past s c p, c ∈ calls → P past s → choice offers past s c = some p → R p (call offers s c).2)
    (quiet : ∀ past s c p, c ∈ calls → P past s → choice offers past s c = none → R p s → R p (call offers s c).2) :
    (choices offers past s calls).IsChain (fun p q => R p q.before) ∧
    ∀ p, R p s → (p :: choices offers past s calls).IsChain (fun p q => R p q.before) := by
  induction calls generalizing past s with
  | nil => exact ⟨.nil,fun p _ => .singleton p⟩
  | cons c rest ih =>
    have next := step past s c List.mem_cons_self start
    obtain ⟨chain,behind⟩ := ih next (fun past s d inside => step past s d (List.mem_cons_of_mem _ inside))
      (fun past s d p inside => made past s d p (List.mem_cons_of_mem _ inside))
      (fun past s d p inside => quiet past s d p (List.mem_cons_of_mem _ inside))
    rcases call_cases offers past s c with ⟨q,own,_,here,_⟩ | ⟨absent,_,_⟩
    · have after := behind q (made past s c q List.mem_cons_self start own)
      have same : choices offers past s (c :: rest) = q :: choices offers (past ++ [c]) (call offers s c).2 rest := by
        rw [choices,own]
        rfl
      rw [same]
      refine ⟨after,?_⟩
      intro p before
      exact .cons_cons (here ▸ before) after
    · have same : choices offers past s (c :: rest) = choices offers (past ++ [c]) (call offers s c).2 rest := by
        rw [choices,absent]
        rfl
      rw [same]
      refine ⟨chain,?_⟩
      intro p before
      exact behind p (quiet past s c p List.mem_cons_self start absent before)
/-! ### The turn and the order -/

/-- The state goes on one turn after a choice. -/
def Turned (p : Choice ι ρ) (s : PeerSelection ι) : Prop := Round p.before.turn s.turn
/-- The chosen link is the last selected, and nobody else's selection moves. -/
def Stamped (p : Choice ι ρ) (s : PeerSelection ι) : Prop :=
  ∀ link, (summary s link).lastSelected = if link = p.chosen then p.before.order + 1
    else (summary p.before link).lastSelected

theorem choices_read (calls : List (Call ι ρ)) : ∀ p ∈ choices offers [] new calls,
    Reads p.past p.before ∧ Takes p.before p.eligible p.deadlineMs p.chosen ∧
      ∃ c ∈ calls, ∀ link ∈ p.eligible, link ∈ c.links offers :=
  choices_hold reads_new (fun _ _ c _ reads => reads_call reads c)

theorem choices_rounds (calls : List (Call ι ρ)) :
    (choices offers [] new calls).IsChain (fun p q => Turned p q.before) := by
  refine (choices_chain (P := Reads) reads_new (fun _ _ c _ reads => reads_call reads c) ?_ ?_).1
  · intro past s c p _ _ made
    rcases call_cases offers past s c with ⟨q,own,_,here,_,_,after,_⟩ | ⟨absent,_,_⟩
    · obtain rfl : q = p := Option.some.inj (own.symm.trans made)
      rw [Turned,after,here]
      rfl
    · rw [absent] at made
      exact nomatch made
  · intro past s c p _ _ quiet turned
    rcases call_cases offers past s c with ⟨q,own,_⟩ | ⟨_,turn,_⟩
    · rw [quiet] at own
      exact nomatch own
    · rw [Turned,turn]
      exact turned
theorem choices_order {calls : List (Call ι ρ)} (own : ∀ c ∈ calls, c.Own) :
    (choices offers [] new calls).IsChain (fun p q => Stamped p q.before) := by
  refine (choices_chain (P := Reads) reads_new (fun _ _ c _ reads => reads_call reads c) ?_ ?_).1
  · intro past s c p _ _ made
    rcases call_cases offers past s c with ⟨q,own,_,here,_,_,after,_⟩ | ⟨absent,_,_⟩
    · obtain rfl : q = p := Option.some.inj (own.symm.trans made)
      intro link
      rw [after,summary_markSelected,here]
      split <;> rfl
    · rw [absent] at made
      exact nomatch made
  · intro past s c p inside _ quiet stamped
    rcases call_cases offers past s c with ⟨q,made,_⟩ | ⟨_,_,same⟩
    · rw [quiet] at made
      exact nomatch made
    · intro link
      rw [same (own c inside) link]
      exact stamped link

theorem chain_part {α : Type} {R : α → α → Prop} {window all : List α} (chain : all.IsChain R)
    (inside : window <:+: all) :
    window.IsChain R := by
  obtain ⟨front,back,rfl⟩ := inside
  exact chain.left_of_append.right_of_append

theorem window_rounds {calls : List (Call ι ρ)} {window : List (Choice ι ρ)} {k : Nat}
    (inside : window <:+: choices offers [] new calls) (long : window.length = 4 * k) :
    (window.filter (fun p => p.before.turn = 0)).length = k := by
  have chain : (window.map (fun p => p.before.turn)).IsChain Round :=
    (List.isChain_map _).mpr (chain_part (choices_rounds calls) inside)
  have below : ∀ a ∈ window.map (fun p => p.before.turn), a < 4 := by
    intro a member
    obtain ⟨p,made,rfl⟩ := List.mem_map.mp member
    exact (choices_read calls p (inside.subset made)).1.1
  have zeros := rounds_zero chain below ((List.length_map _).trans long)
  rw [List.count_eq_countP,List.countP_map,List.countP_eq_length_filter] at zeros
  rw [← zeros]
  congr 2

/-- An exploration as a pick among the cold links. -/
def Choice.pick (p : Choice ι ρ) : Pick ι where
  stamp link := (summary p.before link).lastSelected
  waiting := p.eligible.filter (fun link => outcome p.past link = none)
  picked := p.chosen

theorem window_passes {calls : List (Call ι ρ)} {window : List (Choice ι ρ)} {link : ι} (own : ∀ c ∈ calls, c.Own)
    (inside : window <:+: choices offers [] new calls) (others : ∀ p ∈ window, p.chosen ≠ link) :
    window.Pairwise (fun p q => Pick.Passes link p.pick q.pick) := by
  let Later : Choice ι ρ → Choice ι ρ → Prop := fun p q =>
    Pick.Passes link p.pick q.pick ∧ ∀ other, p.pick.stamp other ≤ q.pick.stamp other
  have chain : window.IsChain Later := by
    apply (chain_part (choices_order own) inside).imp_of_mem_imp
    intro p q made _ stamped
    have old := (choices_read calls p (inside.subset made)).1.2.1
    have kept : q.pick.stamp link = p.pick.stamp link := by
      show (summary q.before link).lastSelected = _
      rw [stamped link,if_neg (Ne.symm (others p made))]
      rfl
    have newest : q.pick.stamp p.chosen = p.before.order + 1 := by
      show (summary q.before p.chosen).lastSelected = _
      rw [stamped p.chosen,if_pos rfl]
    refine ⟨⟨kept,?_⟩,?_⟩
    · show p.pick.stamp link < q.pick.stamp p.chosen
      rw [newest]
      exact Nat.lt_succ_of_le (old link)
    · intro other
      show _ ≤ (summary q.before other).lastSelected
      rw [stamped other]
      split
      · exact (old other).trans (Nat.le_succ _)
      · exact le_rfl
  have trans : ∀ p q r, Later p q → Later q r → Later p r := by
    rintro p q r ⟨⟨kept,passed⟩,grown⟩ ⟨⟨keeps,_⟩,grows⟩
    exact ⟨⟨keeps.trans kept,passed.trans_le (grows _)⟩,fun other => (grown other).trans (grows other)⟩
  have : IsTrans (Choice ι ρ) Later := ⟨trans⟩
  exact (List.isChain_iff_pairwise.mp chain).imp (·.1)

/-! ### Fair choice -/

/-- What peer choice owes in a run. -/
structure Fair (offers : Offers ι ρ) (calls : List (Call ι ρ)) : Prop where
  /-- Of four choices in a row at most one explores where a sound link was eligible. -/
  frugal : ∀ window, window <:+: choices offers [] new calls → window.length = 4 → window.countP Choice.wasteful ≤ 1
  /-- A failing link is chosen only where every eligible link is failing. -/
  careful : ∀ p ∈ choices offers [] new calls, outcome p.past p.chosen = some false →
    ∀ link ∈ p.eligible, outcome p.past link = some false
  /-- A never measured link that stays eligible is chosen within four choices for each link. -/
  patient : (∀ c ∈ calls, c.Own) → ∀ links : Finset ι, (∀ c ∈ calls, ∀ link ∈ c.links offers, link ∈ links) →
    ∀ k, links.card ≤ k → ∀ link ∈ links, ∀ window, window <:+: choices offers [] new calls → window.length = 4 * k →
      (∀ p ∈ window, 100 ≤ p.deadlineMs ∧ link ∈ p.eligible ∧ outcome p.past link = none) →
      ∃ p ∈ window, p.chosen = link

theorem runs_fair (offers : Offers ι ρ) (calls : List (Call ι ρ)) : Fair offers calls := by
  refine ⟨?_,?_,?_⟩
  · intro window inside four
    have once := window_rounds (k := 1) inside four
    rw [← List.countP_eq_length_filter] at once
    rw [← once]
    apply List.countP_mono_left
    intro p made wasteful
    obtain ⟨⟨_,_,reads⟩,takes,_⟩ := choices_read calls p (inside.subset made)
    simp only [Choice.wasteful,Bool.and_eq_true,decide_eq_true_eq,List.any_eq_true] at wasteful
    obtain ⟨fresh,link,eligible,sound⟩ := wasteful
    rcases takes.explores ((reads _).trans fresh) with first | unsound
    · exact decide_eq_true first
    · exact absurd ((reads link).trans sound) (unsound link eligible)
  · intro p made failing link eligible
    obtain ⟨⟨_,_,reads⟩,takes,_⟩ := choices_read calls p made
    rw [← reads link]
    exact takes.fails ((reads _).trans failing) link eligible
  · intro own links known k few link member window inside long waits
    let explorations := window.filter (fun p => p.before.turn = 0)
    have part : explorations.Sublist window := List.filter_sublist
    have each : ∀ p ∈ explorations.map Choice.pick, p.Oldest ∧ link ∈ p.waiting ∧ p.picked ∈ links := by
      intro pick there
      obtain ⟨p,made,rfl⟩ := List.mem_map.mp there
      have first : p.before.turn = 0 := by simpa using (List.mem_filter.mp made).2
      have there : p ∈ window := part.subset made
      obtain ⟨⟨_,_,reads⟩,takes,c,call,named⟩ := choices_read calls p (inside.subset there)
      obtain ⟨early,eligible,fresh⟩ := waits p there
      obtain ⟨cold,oldest⟩ := takes.oldest first early ⟨link,eligible,(reads link).trans fresh⟩
      refine ⟨⟨?_,?_⟩,?_,?_⟩
      · exact List.mem_filter.mpr ⟨takes.member,decide_eq_true ((reads _).symm.trans cold)⟩
      · intro other waiting
        obtain ⟨eligible,unmeasured⟩ := List.mem_filter.mp waiting
        exact oldest other eligible ((reads other).trans (of_decide_eq_true unmeasured))
      · exact List.mem_filter.mpr ⟨eligible,decide_eq_true fresh⟩
      · exact known c call _ (named _ takes.member)
    have count : explorations.length = k := window_rounds inside long
    by_contra never
    have others : ∀ p ∈ window, p.chosen ≠ link := fun p made own => never ⟨p,made,own⟩
    have passes : (explorations.map Choice.pick).Pairwise (Pick.Passes link) :=
      List.pairwise_map.mpr ((window_passes own inside others).sublist part)
    obtain ⟨pick,there,picked⟩ := waits_picked (fun p made => (each p made).1) (fun p made => (each p made).2.1)
      (fun p made => (each p made).2.2) member (fun _ => passes) (by rw [List.length_map,count]; exact few)
    obtain ⟨p,made,rfl⟩ := List.mem_map.mp there
    exact others p (part.subset made) picked
end

/-- Peer choice explores without waste or starvation, in the page's program and in the core. -/
theorem choices_fair [DecidableEq ι] :
    (∀ calls : List (Call ι (Browser ι)), Fair Browser.offers calls) ∧
    (∀ calls : List (Call ι (Core ι)), Fair Core.offers calls) := by
  constructor
  · intro calls
    exact runs_fair Browser.offers calls
  · intro calls
    exact runs_fair Core.offers calls
end RelaySwarm.Choosing
