import Mathlib.Data.List.Induction

/-!
An allowance that is spent once. It is renewed from outside, or it is armed again when
enough time has passed since it was spent. Of two times it is spent with no renewal
between, the second is that much later (`spaced`).
-/
namespace RelaySwarm.Allowance

/-- An allowance that is gone does not come back. -/
inductive Phase where
  | unborn | armed
  | spent (since : Nat)
  | gone
deriving DecidableEq
/-- What an action does to an allowance. -/
inductive Use where
  | spends (now : Nat)
  | rearms (now : Nat)
  | renews | rests | leaves
deriving DecidableEq
def Use.time : Use → Option Nat
  | .spends now => some now
  | .rearms now => some now
  | _ => none
inductive Follows (interval : Nat) : Phase → Use → Phase → Prop
  | spends (now : Nat) : Follows interval .armed (.spends now) (.spent now)
  | rearms {since now : Nat} (late : since + interval ≤ now) : Follows interval (.spent since) (.rearms now) .armed
  | renewsArmed : Follows interval .armed .renews .armed
  | renewsSpent (since : Nat) : Follows interval (.spent since) .renews .armed
  | appears : Follows interval .unborn .rests .armed
  | rests (phase : Phase) : Follows interval phase .rests phase
  | leaves (phase : Phase) : Follows interval phase .leaves .gone

/-- Between two times that an allowance is spent lies a renewal or the interval, where
    each use is that of an action after those before it. -/
def Spaced {α : Type} (interval : Nat) (use : List α → α → Use) (acts : List α) : Prop :=
  ∀ before first middle second after, acts = before ++ first :: (middle ++ second :: after) →
    ∀ earlier later, use before first = .spends earlier → use (before ++ first :: middle) second = .spends later →
      earlier + interval ≤ later ∨
        ∃ part renewal rest, middle = part ++ renewal :: rest ∧ use (before ++ first :: part) renewal = .renews

section
variable {α : Type} {interval : Nat} {phase : List α → Phase} {use : List α → α → Use} {reading : α → Option Nat}

/-- Without a renewal a spent allowance stays spent until the interval has passed. -/
theorem stays_spent (follows : ∀ before act, Follows interval (phase before) (use before act) (phase (before ++ [act])))
    (timed : ∀ before act now, (use before act).time = some now → reading act = some now) {start : List α} {since : Nat}
    (spent : phase start = .spent since) (acts : List α)
    (unaided : ∀ part act rest, acts = part ++ act :: rest → use (start ++ part) act ≠ .renews) :
    phase (start ++ acts) = .spent since ∨ phase (start ++ acts) = .gone ∨
      ∃ act ∈ acts, ∃ now, reading act = some now ∧ since + interval ≤ now := by
  induction acts using List.reverseRecOn with
  | nil =>
    rw [List.append_nil]
    exact .inl spent
  | append_singleton acts act ih =>
    have step := follows (start ++ acts) act
    rw [List.append_assoc] at step
    have own := unaided acts act [] rfl
    have before := ih (fun part other rest split => unaided part other (rest ++ [act]) (by rw [split]; simp))
    rcases before with still | left | ⟨other,member,now,read,late⟩
    · rw [still] at step
      generalize used : use (start ++ acts) act = what at step own
      generalize phase (start ++ (acts ++ [act])) = next at step ⊢
      cases step with
      | @rearms _ now late =>
        have read := timed (start ++ acts) act now (by rw [used]; rfl)
        exact .inr (.inr ⟨act,by simp,now,read,late⟩)
      | renewsSpent => exact absurd rfl own
      | rests => exact .inl rfl
      | leaves => exact .inr (.inl rfl)
    · rw [left] at step
      generalize use (start ++ acts) act = what at step
      generalize phase (start ++ (acts ++ [act])) = next at step ⊢
      cases step with
      | rests => exact .inr (.inl rfl)
      | leaves => exact .inr (.inl rfl)
    · exact .inr (.inr ⟨other,List.mem_append_left _ member,now,read,late⟩)
theorem spaced (follows : ∀ before act, Follows interval (phase before) (use before act) (phase (before ++ [act])))
    (timed : ∀ before act now, (use before act).time = some now → reading act = some now) {acts : List α}
    (sorted : (acts.filterMap reading).Pairwise (· ≤ ·)) : Spaced interval use acts := by
  intro before first middle second after split earlier later spends again
  by_cases aided : ∃ part renewal rest, middle = part ++ renewal :: rest ∧
    use (before ++ first :: part) renewal = .renews
  · exact .inr aided
  · refine .inl ?_
    have spent : phase (before ++ [first]) = .spent earlier := by
      have step := follows before first
      rw [spends] at step
      generalize phase before = current at step
      generalize phase (before ++ [first]) = next at step ⊢
      cases step
      rfl
    have armed : phase (before ++ first :: middle) = .armed := by
      have step := follows (before ++ first :: middle) second
      rw [again] at step
      generalize phase (before ++ first :: middle) = current at step ⊢
      generalize phase (before ++ first :: middle ++ [second]) = next at step
      cases step
      rfl
    have course := stays_spent follows timed spent middle (fun part act rest same renews =>
      aided ⟨part,act,rest,same,by rwa [List.append_assoc,List.singleton_append] at renews⟩)
    rw [List.append_assoc,List.singleton_append,armed] at course
    rcases course with stays | left | ⟨act,member,now,read,late⟩
    · cases stays
    · cases left
    · have last := timed _ second later (by rw [again]; rfl)
      have both : [act,second].Sublist acts := by
        have middle' : [act].Sublist middle := List.singleton_sublist.mpr member
        have second' : [second].Sublist (second :: after) := List.singleton_sublist.mpr List.mem_cons_self
        rw [split]
        exact ((middle'.append second').cons first).trans (List.sublist_append_right before _)
      have ordered : now ≤ later := by
        have pair := sorted.sublist (both.filterMap reading)
        rw [List.filterMap_cons_some read,List.filterMap_cons_some last,List.filterMap_nil,List.pairwise_pair] at pair
        exact pair
      exact Nat.le_trans late ordered
end

end RelaySwarm.Allowance
