import Mathlib.Data.List.Basic

/-!
Lists in the order of a number that each element has. What such a list holds between two
numbers is put together again from what it holds at each of them.
-/
namespace RelaySwarm.NumberWindows
universe u
variable {α : Type u} {number : α → Nat} {all before : List α} {start count n : Nat}

def elementsAt (number : α → Nat) (all : List α) (n : Nat) : List α := all.filter (number · = n)
def gathered (number : α → Nat) (all : List α) (start count : Nat) : List α :=
  (List.range' start count).flatMap (elementsAt number all)

theorem elementsAt_append : elementsAt number (before ++ all) n =
    elementsAt number before n ++ elementsAt number all n := List.filter_append ..
theorem elementsAt_beyond (beyond : ∀ a ∈ all, number a ≠ n) : elementsAt number all n = [] := by
  rw [elementsAt,List.filter_eq_nil_iff]
  intro a kept
  simpa using beyond a kept
theorem least_first (ordered : all.Pairwise (number · ≤ number ·)) (above : ∀ a ∈ all, n ≤ number a) :
    all = elementsAt number all n ++ all.filter (number · ≠ n) := by
  induction all with
  | nil => rfl
  | cons a rest ih =>
    obtain ⟨first,later⟩ := List.pairwise_cons.mp ordered
    by_cases least : number a = n
    · have tail := ih later (fun b kept => above b (by simp [kept]))
      simp only [elementsAt,least,List.filter_cons,decide_true,if_true,List.cons_append,ne_eq,not_true,decide_false,
        Bool.false_eq_true,if_false]
      rw [← elementsAt,← tail]
    · have higher : n < number a := Nat.lt_of_le_of_ne (above a (by simp)) (Ne.symm least)
      have none_here : elementsAt number (a :: rest) n = [] := by
        refine elementsAt_beyond fun b kept => ?_
        rcases List.mem_cons.mp kept with rfl | kept
        · exact least
        · exact Nat.ne_of_gt (Nat.lt_of_lt_of_le higher (first b kept))
      rw [none_here,List.nil_append,List.filter_eq_self.mpr]
      intro b kept
      rcases List.mem_cons.mp kept with rfl | kept
      · simpa using least
      · simpa using Nat.ne_of_gt (Nat.lt_of_lt_of_le higher (first b kept))
theorem gathered_all (ordered : all.Pairwise (number · ≤ number ·))
    (within : ∀ a ∈ all, start ≤ number a ∧ number a < start + count) :
    gathered number all start count = all := by
  induction count generalizing start all with
  | zero =>
    cases all with
    | nil => rfl
    | cons a rest =>
      have := within a (by simp)
      omega
  | succ count ih =>
    have split := least_first ordered (fun a kept => (within a kept).1)
    have above : gathered number (all.filter (number · ≠ start)) (start + 1) count = all.filter (number · ≠ start) := by
      refine ih (ordered.sublist List.filter_sublist) fun a kept => ?_
      obtain ⟨kept,other⟩ := List.mem_filter.mp kept
      have := within a kept
      have : number a ≠ start := by simpa using other
      omega
    have same : gathered number all (start + 1) count =
        gathered number (all.filter (number · ≠ start)) (start + 1) count := by
      refine List.flatMap_congr fun n inside => ?_
      have : n ≠ start := by
        have := List.mem_range'_1.mp inside
        omega
      rw [elementsAt,elementsAt,List.filter_filter]
      refine List.filter_congr fun a _ => ?_
      by_cases here : number a = n
      · simp [here,this]
      · simp [here]
    calc gathered number all start (count + 1)
        = elementsAt number all start ++ gathered number all (start + 1) count := rfl
      _ = elementsAt number all start ++ all.filter (number · ≠ start) := by rw [same,above]
      _ = all := split.symm

end RelaySwarm.NumberWindows
