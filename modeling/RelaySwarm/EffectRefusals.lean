import RelaySwarm.Effect

/-!
What a computation may be refused for, from a state: the reasons of a sequence are those
of its first part, and those of the rest from the states it can be reached in.
-/
namespace RelaySwarm.Effect
universe u v w
variable {σ : Type u} {ε : Type v} {α β : Type w} {reasons : ε → Prop} {s : σ}

/-- From this state the computation is refused for one of these reasons, if it is. -/
def RefusedAs (reasons : ε → Prop) (m : Effect σ ε α) (s : σ) : Prop := ∀ e s', m s = (.error e,s') → reasons e

theorem answers_as {m : Effect σ ε α} {a : α} {t : σ} (answers : m s = (.ok a,t)) : RefusedAs reasons m s := by
  intro e s' refused
  rw [answers] at refused
  cases refused
theorem pure_as (a : α) : RefusedAs reasons (pure a : Effect σ ε α) s := fun _ _ refused => nomatch refused
theorem refuseIf_as {c : Prop} [Decidable c] {e : ε} (fits : c → reasons e) :
    RefusedAs reasons (refuseIf c e : Effect σ ε PUnit) s := by
  intro e' s' refused
  unfold refuseIf at refused
  split_ifs at refused with holds
  · cases refused
    exact fits holds
  · cases refused
theorem require_as {o : Option α} {e : ε} (fits : o = none → reasons e) :
    RefusedAs reasons (require o e : Effect σ ε α) s := by
  intro e' s' refused
  cases o with
  | none =>
    cases refused
    exact fits rfl
  | some a => cases refused
theorem bind_as {m : Effect σ ε α} {f : α → Effect σ ε β} (first : RefusedAs reasons m s)
    (rest : ∀ a s', m s = (.ok a,s') → RefusedAs reasons (f a) s') : RefusedAs reasons (m >>= f) s := by
  intro e s' refused
  cases done : m s with
  | mk outcome middle =>
    cases outcome with
    | ok a =>
      rw [bind_pass done] at refused
      exact rest a middle done e s' refused
    | error e' =>
      rw [bind_error done] at refused
      cases refused
      exact first e s' done

end RelaySwarm.Effect
