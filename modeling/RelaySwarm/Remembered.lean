import Mathlib.Data.List.Basic

/-!
A bounded memory of keys that passed a test. A key that is remembered passes without
the test and moves to the back; the first one goes when there is no room. It answers as
the test does (`check_answer`), as long as the key of an item decides the test.
-/
namespace RelaySwarm.Remembered

section
variable {κ : Type} [DecidableEq κ]

/-- The answer for a key, where the test would give a verdict. -/
def check (capacity : Nat) (seen : List κ) (key : κ) (verdict : Bool) : Bool × List κ :=
  if key ∈ seen then (true,seen.erase key ++ [key])
  else if verdict then (true,(if capacity ≤ seen.length then seen.tail else seen) ++ [key])
  else (false,seen)
/-- What is remembered passed the test, and there is no more of it than fits. -/
structure Proved (capacity : Nat) (test : κ → Prop) (seen : List κ) : Prop where
  tested : ∀ key ∈ seen, test key
  few : seen.length ≤ capacity

variable {capacity : Nat} {test : κ → Prop} {seen : List κ} {key : κ} {verdict : Bool}

omit [DecidableEq κ] in
theorem nothing_proved : Proved capacity test ([] : List κ) := ⟨fun _ member => (nomatch member),Nat.zero_le _⟩
theorem check_answer (proved : Proved capacity test seen) (decides : verdict = true ↔ test key) :
    (check capacity seen key verdict).1 = verdict := by
  unfold check
  by_cases known : key ∈ seen
  · rw [if_pos known]
    exact (decides.mpr (proved.tested key known)).symm
  · rw [if_neg known]
    cases verdict <;> rfl
theorem check_proved (room : 0 < capacity) (proved : Proved capacity test seen) (decides : verdict = true ↔ test key) :
    Proved capacity test (check capacity seen key verdict).2 := by
  unfold check
  by_cases known : key ∈ seen
  · rw [if_pos known]
    refine ⟨fun other member => ?_,?_⟩
    · rcases List.mem_append.mp member with kept | own
      · exact proved.tested other (List.mem_of_mem_erase kept)
      · rw [List.mem_singleton.mp own]
        exact proved.tested key known
    · have some := List.length_pos_of_mem known
      have few := proved.few
      rw [List.length_append,List.length_erase_of_mem known,List.length_singleton]
      omega
  · rw [if_neg known]
    cases passed : verdict with
    | false => exact proved
    | true =>
      rw [if_pos rfl]
      refine ⟨fun other member => ?_,?_⟩
      · rcases List.mem_append.mp member with kept | own
        · split at kept
          · exact proved.tested other (List.mem_of_mem_tail kept)
          · exact proved.tested other kept
        · rw [List.mem_singleton.mp own]
          exact decides.mp passed
      · rw [List.length_append,List.length_singleton]
        split
        · rw [List.length_tail]
          have few := proved.few
          omega
        · omega
end

/-! ### Runs -/

section
variable {σ ι : Type} (step : σ → ι → Bool × σ)

/-- The answers for items in turn, and the last state. -/
def run : σ → List ι → List Bool × σ
  | s,[] => ([],s)
  | s,item :: rest =>
    let first := step s item
    let later := run first.2 rest
    (first.1 :: later.1,later.2)
theorem run_answers {kept : σ → Prop} {plain : ι → Bool}
    (each : ∀ s item, kept s → (step s item).1 = plain item ∧ kept (step s item).2) (items : List ι) : ∀ s : σ, kept s →
      (run step s items).1 = items.map plain ∧ kept (run step s items).2 := by
  induction items with
  | nil => exact fun s held => ⟨rfl,held⟩
  | cons item rest ih =>
    intro s held
    have first := each s item held
    have later := ih _ first.2
    exact ⟨congrArg₂ List.cons first.1 later.1,later.2⟩
end

end RelaySwarm.Remembered
