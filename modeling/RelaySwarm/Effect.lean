import Mathlib.Order.Basic
import Mathlib.Tactic.Common

/-!
Computations that may be refused, over a state that survives the refusal. The
value of a sequence is known from its parts (`bind_ok`), and a reflexive,
transitive relation that every part keeps is kept by the whole, refused or not
(`Within.bind`).
-/
namespace RelaySwarm
universe u v w x

def Effect (σ : Type u) (ε : Type v) (α : Type w) : Type (max u v w) := σ → Except ε α × σ

namespace Effect
variable {σ : Type u} {ε : Type v} {α β : Type w}

instance : Monad (Effect σ ε) where
  pure a := fun s => (.ok a,s)
  bind m f := fun s => match m s with
    | (.ok a,s') => f a s'
    | (.error e,s') => (.error e,s')

def refuse (e : ε) : Effect σ ε α := fun s => (.error e,s)
/-- Refuse when the condition holds. -/
def refuseIf (c : Prop) [Decidable c] (e : ε) : Effect σ ε PUnit := if c then refuse e else pure ⟨⟩
/-- A value that may be missing. -/
def require (o : Option α) (e : ε) : Effect σ ε α := fun s => match o with
  | some a => (.ok a,s)
  | none => (.error e,s)

@[simp] theorem pure_ok {a b : α} {s s' : σ} : (pure a : Effect σ ε α) s = (.ok b,s') ↔ a = b ∧ s = s' := by
  simp [pure]
theorem bind_ok {m : Effect σ ε α} {f : α → Effect σ ε β} {s s' : σ} {b : β} :
    (m >>= f) s = (.ok b,s') ↔ ∃ a s₁, m s = (.ok a,s₁) ∧ f a s₁ = (.ok b,s') := by
  change (match m s with
    | (.ok a,s') => f a s'
    | (.error e,s') => (.error e,s')) = _ ↔ _
  cases found : m s with
  | mk outcome left =>
    cases outcome with
    | ok a => simp
    | error e => simp
@[simp] theorem refuse_ok {e : ε} {a : α} {s s' : σ} : (refuse e : Effect σ ε α) s = (.ok a,s') ↔ False := by
  simp [refuse]
@[simp] theorem refuseIf_ok {c : Prop} [Decidable c] {e : ε} {a : PUnit} {s s' : σ} :
    (refuseIf c e : Effect σ ε PUnit) s = (.ok a,s') ↔ ¬ c ∧ s = s' := by
  unfold refuseIf
  split_ifs with holds <;> simp [holds]
@[simp] theorem require_ok {o : Option α} {e : ε} {a : α} {s s' : σ} :
    (require o e : Effect σ ε α) s = (.ok a,s') ↔ o = some a ∧ s = s' := by
  cases o <;> simp [require]

theorem bind_pass {m : Effect σ ε α} {f : α → Effect σ ε β} {s s' : σ} {a : α} (passed : m s = (.ok a,s')) :
    (m >>= f) s = f a s' := by
  change (match m s with
    | (.ok a,s') => f a s'
    | (.error e,s') => (.error e,s')) = _
  rw [passed]
theorem bind_error {m : Effect σ ε α} {f : α → Effect σ ε β} {s s' : σ} {e : ε} (refused : m s = (.error e,s')) :
    (m >>= f) s = (.error e,s') := by
  change (match m s with
    | (.ok a,s') => f a s'
    | (.error e,s') => (.error e,s')) = _
  rw [refused]
theorem refuseIf_pass {c : Prop} [Decidable c] {e : ε} (holds : ¬ c) (s : σ) :
    (refuseIf c e : Effect σ ε PUnit) s = (.ok ⟨⟩,s) := by
  unfold refuseIf
  rw [if_neg holds]
  rfl

theorem refuseIf_stop {c : Prop} [Decidable c] {e : ε} (holds : c) (s : σ) :
    (refuseIf c e : Effect σ ε PUnit) s = (.error e,s) := by
  unfold refuseIf
  rw [if_pos holds]
  rfl

/-- The relation holds from the state before to the state after, refused or not. -/
def Within (r : σ → σ → Prop) (m : Effect σ ε α) : Prop := ∀ s, r s (m s).2

section
variable {r : σ → σ → Prop}

theorem Within.pure (same : ∀ s, r s s) (a : α) : Within r (pure a : Effect σ ε α) := fun s => same s
theorem Within.refuseIf (same : ∀ s, r s s) (c : Prop) [Decidable c] (e : ε) :
    Within r (refuseIf c e : Effect σ ε PUnit) := by
  intro s
  unfold Effect.refuseIf
  split_ifs
  · exact same s
  · exact same s
theorem Within.require (same : ∀ s, r s s) (o : Option α) (e : ε) : Within r (require o e : Effect σ ε α) := by
  intro s
  cases o <;> exact same s
theorem Within.bind (trans : ∀ a b c, r a b → r b c → r a c) {m : Effect σ ε α} {f : α → Effect σ ε β}
    (first : Within r m) (second : ∀ a, Within r (f a)) : Within r (m >>= f) := by
  intro s
  have before := first s
  change r s (match m s with
    | (.ok a,s') => f a s'
    | (.error e,s') => (.error e,s')).2
  cases found : m s with
  | mk outcome left =>
    rw [found] at before
    cases outcome with
    | ok a => exact trans _ _ _ before (second a left)
    | error e => exact before
end

end Effect
end RelaySwarm
