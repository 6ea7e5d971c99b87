import RelaySwarm.IndexMap
import Mathlib.Algebra.BigOperators.Group.List.Basic
import Mathlib.Algebra.Order.Ring.Nat

/-!
Amounts added up by key, in a map that keeps the order of the first additions. What is
added at one key is all that its amount and the total gain (`amount_add`, `total_add`).
-/
namespace RelaySwarm.IndexMap
universe u
variable {κ : Type u} [DecidableEq κ]

def amount (m : IndexMap κ Nat) (k : κ) : Nat := (m.get? k).getD 0
def add (m : IndexMap κ Nat) (k : κ) (n : Nat) : IndexMap κ Nat := m.insert k (m.amount k + n)
omit [DecidableEq κ] in
def total (m : IndexMap κ Nat) : Nat := m.values.sum

theorem amount_add (m : IndexMap κ Nat) (k j : κ) (n : Nat) :
    (m.add k n).amount j = m.amount j + if j = k then n else 0 := by
  unfold add amount
  rw [get?_insert]
  by_cases same : j = k
  · simp [same]
  · simp [same]
private theorem sum_replace {k : κ} {a b : Nat} : ∀ {es : List (κ × Nat)}, (es.map (·.1)).Nodup →
    es.find? (·.1 = k) = some (k,a) →
    (es.map (fun e => if e.1 = k then b else e.2)).sum + a = (es.map (·.2)).sum + b := by
  intro es distinct found
  induction es with
  | nil => cases found
  | cons e rest ih =>
    rw [List.map_cons,List.nodup_cons] at distinct
    simp only [List.map_cons,List.sum_cons]
    by_cases same : e.1 = k
    · have others : rest.map (fun e => if e.1 = k then b else e.2) = rest.map (·.2) := by
        refine List.map_congr_left (fun d member => if_neg ?_)
        rintro rfl
        exact distinct.1 (by rw [same]; exact List.mem_map_of_mem member)
      rw [List.find?_cons_of_pos (by simpa using same)] at found
      cases found
      rw [if_pos rfl,others]
      omega
    · rw [List.find?_cons_of_neg (by simpa using same)] at found
      have rest' := ih distinct.2 found
      rw [if_neg same]
      omega
theorem total_add (m : IndexMap κ Nat) (k : κ) (n : Nat) : (m.add k n).total = m.total + n := by
  unfold add insert
  by_cases present : m.contains k = true
  · rw [dif_pos present]
    obtain ⟨a,held⟩ := Option.isSome_iff_exists.mp present
    obtain ⟨⟨j,a'⟩,found,rfl⟩ := Option.map_eq_some_iff.mp held
    have same : j = k := by simpa using List.find?_some found
    subst same
    have replaced := sum_replace (b := a' + n) m.distinct found
    have amount : m.amount j = a' := by rw [IndexMap.amount,held]; rfl
    simp only [total,values,modify,mapValues,List.map_map,amount]
    have eta : (m.entries.map ((fun e : κ × Nat => e.2) ∘ fun e => (e.1,if e.1 = j then a' + n else e.2))).sum =
        (m.entries.map (fun e => if e.1 = j then a' + n else e.2)).sum := rfl
    omega
  · rw [dif_neg present]
    have none : m.amount k = 0 := by
      have absent : m.get? k = none := by simpa [contains] using present
      rw [amount,absent]
      rfl
    simp [total,values,none]

end RelaySwarm.IndexMap
