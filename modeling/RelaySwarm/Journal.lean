import Mathlib.Data.List.Induction
import Mathlib.Data.List.Infix

/-!
Journals, to which entries are only ever added. What goes before every entry of a kind
goes on doing so when entries are added (`Preceded`), and what is invariant under one
event of a history holds after the whole of it (`foldl_history`).
-/
namespace RelaySwarm
universe u v

section
variable {α : Type u} {p q : α → Prop} {journal more : List α}

/-- Every entry of one kind comes after an entry of another. -/
def Preceded (p q : α → Prop) (journal : List α) : Prop :=
  ∀ before a after, journal = before ++ a :: after → p a → ∃ b ∈ before, q b

theorem Preceded.nil : Preceded p q [] := by
  intro before a after whole
  simp at whole
theorem Preceded.snoc (kept : Preceded p q journal) {a : α} (new : p a → ∃ b ∈ journal, q b) :
    Preceded p q (journal ++ [a]) := by
  intro before b after whole kind
  rcases List.eq_nil_or_concat after with rfl | ⟨front,last,rfl⟩
  · obtain ⟨rfl,same⟩ := List.append_inj' whole rfl
    cases same
    exact new kind
  · have apart : journal ++ [a] = (before ++ b :: front) ++ [last] := by
      rw [whole]
      simp
    obtain ⟨front',_⟩ := List.append_inj' apart rfl
    exact kept before b front front' kind
theorem Preceded.append (kept : Preceded p q journal) (new : ∀ a ∈ more, p a → ∃ b ∈ journal, q b) :
    Preceded p q (journal ++ more) := by
  induction more using List.reverseRecOn with
  | nil => rwa [List.append_nil]
  | append_singleton more a ih =>
    rw [← List.append_assoc]
    apply (ih (fun b member => new b (List.mem_append_left _ member))).snoc
    intro kind
    obtain ⟨b,member,found⟩ := new a (List.mem_append_right _ (List.mem_singleton_self a)) kind
    exact ⟨b,List.mem_append_left _ member,found⟩
end

theorem foldl_history {σ : Type u} {ε : Type v} {step : σ → ε → σ} {P : List ε → σ → Prop} {start : σ}
    (initial : P [] start)
    (next : ∀ events s e, P events s → P (events ++ [e]) (step s e))
    (events : List ε) : P events (events.foldl step start) := by
  induction events using List.reverseRecOn with
  | nil => exact initial
  | append_singleton events e ih =>
    rw [List.foldl_append]
    exact next events _ e ih
end RelaySwarm
