import Mathlib.Data.Finset.Card
import Mathlib.Data.List.Chain
import Mathlib.Data.List.Count
import Mathlib.Tactic.IntervalCases

/-!
Taking turns. A counter that goes round in four is at zero once in any four
consecutive turns (`rounds_zero`). Where every pick takes one of the waiting with
the oldest stamp and stamps it anew, nobody who is picked comes before a waiting
one twice (`picked_nodup`), so who waits through as many picks as there are
members is picked (`waits_picked`).
-/
namespace RelaySwarm
universe u

/-! ### A counter that goes round -/

/-- The next value of a counter that goes round in four. -/
def Round (a b : Nat) : Prop := b = (a + 1) % 4

theorem round_zero {a b c d : Nat} (below : a < 4) (ab : Round a b) (bc : Round b c) (cd : Round c d) :
    [a,b,c,d].count 0 = 1 := by
  unfold Round at ab bc cd
  subst ab bc cd
  interval_cases a <;> rfl

theorem rounds_zero {turns : List Nat} {k : Nat} (chain : turns.IsChain Round) (below : ∀ a ∈ turns, a < 4)
    (long : turns.length = 4 * k) : turns.count 0 = k := by
  induction k generalizing turns with
  | zero =>
    have none : turns = [] := List.length_eq_zero_iff.mp long
    rw [none]
    rfl
  | succ k ih =>
    obtain ⟨front,rest,four,rfl⟩ : ∃ front rest, front.length = 4 ∧ turns = front ++ rest :=
      ⟨turns.take 4,turns.drop 4,by rw [List.length_take]; omega,(List.take_append_drop 4 turns).symm⟩
    have later : rest.count 0 = k := by
      apply ih chain.right_of_append
      · intro a member
        exact below a (List.mem_append_right _ member)
      · rw [List.length_append] at long
        omega
    obtain ⟨a,b,c,d,rfl⟩ := List.length_eq_four.mp four
    have first : [a,b,c,d].count 0 = 1 := by
      obtain ⟨ab,chain⟩ := List.isChain_cons_cons.mp chain.left_of_append
      obtain ⟨bc,chain⟩ := List.isChain_cons_cons.mp chain
      obtain ⟨cd,_⟩ := List.isChain_cons_cons.mp chain
      exact round_zero (below a (by simp)) ab bc cd
    rw [List.count_append,first,later]
    omega

/-! ### The oldest stamp first -/

/-- A pick among the waiting, with the stamps before it. -/
structure Pick (ι : Type u) where
  stamp : ι → Nat
  waiting : List ι
  picked : ι

/-- One of the waiting with the oldest stamp is picked. -/
def Pick.Oldest {ι : Type u} (p : Pick ι) : Prop :=
  p.picked ∈ p.waiting ∧ ∀ i ∈ p.waiting, p.stamp p.picked ≤ p.stamp i
/-- A later pick finds the picked with a stamp newer than that of `i`, and `i` with the stamp it had. -/
def Pick.Passes {ι : Type u} (i : ι) (p q : Pick ι) : Prop :=
  q.stamp i = p.stamp i ∧ p.stamp i < q.stamp p.picked

variable {ι : Type u} {i : ι} {picks : List (Pick ι)}

theorem picked_nodup (oldest : ∀ p ∈ picks, p.Oldest) (waits : ∀ p ∈ picks, i ∈ p.waiting)
    (passes : picks.Pairwise (Pick.Passes i)) : (picks.map Pick.picked).Nodup := by
  rw [List.Nodup,List.pairwise_map]
  apply passes.imp_of_mem
  intro p q _ later pass same
  have older : q.stamp q.picked ≤ q.stamp i := (oldest q later).2 i (waits q later)
  rw [← same,pass.1] at older
  exact absurd pass.2 (Nat.not_lt.mpr older)

theorem waits_picked [DecidableEq ι] {members : Finset ι} (oldest : ∀ p ∈ picks, p.Oldest)
    (waits : ∀ p ∈ picks, i ∈ p.waiting) (known : ∀ p ∈ picks, p.picked ∈ members) (own : i ∈ members)
    (passes : (∀ p ∈ picks, p.picked ≠ i) → picks.Pairwise (Pick.Passes i)) (long : members.card ≤ picks.length) :
    ∃ p ∈ picks, p.picked = i := by
  by_contra never
  have others : ∀ p ∈ picks, p.picked ≠ i := fun p member own => never ⟨p,member,own⟩
  have nodup := picked_nodup oldest waits (passes others)
  have subset : (picks.map Pick.picked).toFinset ⊆ members.erase i := by
    intro j member
    obtain ⟨p,made,rfl⟩ := List.mem_map.mp (List.mem_toFinset.mp member)
    exact Finset.mem_erase.mpr ⟨others p made,known p made⟩
  have few := Finset.card_le_card subset
  rw [List.toFinset_card_of_nodup nodup,List.length_map] at few
  have fewer := Finset.card_erase_lt_of_mem own
  omega
end RelaySwarm
