import Mathlib.Data.List.Basic

/-!
Verdicts on a list whose elements only restrict. Where each element either rejects or has
no effect, the list counts as the set of what may reject, and more of it never gives an
answer that less of it would not give.
-/
namespace RelaySwarm.Restrictions
universe u v
variable {α : Type u} {β : Type v} {limit : Nat} {counts : α → Prop} {verdict : List α → Option β}

/-- The order does not matter; up to the limit neither do repetition and what does not
    count; and an answer for more is the answer for less. -/
structure ActsAsSet (limit : Nat) (counts : α → Prop) (verdict : List α → Option β) : Prop where
  permuted : ∀ a b : List α, a.Perm b → verdict a = verdict b
  same : ∀ a b : List α, a.length ≤ limit → b.length ≤ limit → (∀ e, counts e → (e ∈ a ↔ e ∈ b)) → verdict a = verdict b
  restricts : ∀ a b : List α, a.Sublist b → verdict b = none ∨ verdict b = verdict a

/-- The answer, unless there are too many elements or one of them rejects. -/
def restricted (limit : Nat) (rejects : α → Bool) (answer : Option β) (all : List α) : Option β :=
  if limit < all.length then none else if all.any rejects then none else answer

theorem restricted_acts {rejects : α → Bool} (answer : Option β) (counted : ∀ e, rejects e = true → counts e) :
    ActsAsSet limit counts (restricted limit rejects answer) := by
  constructor
  · intro a b permuted
    have rejected : a.any rejects = b.any rejects := by
      rw [Bool.eq_iff_iff,List.any_eq_true,List.any_eq_true]
      exact exists_congr fun e => and_congr_left fun _ => permuted.mem_iff
    rw [restricted,restricted,permuted.length_eq,rejected]
  · intro a b few few' members
    have rejected : a.any rejects = b.any rejects := by
      rw [Bool.eq_iff_iff,List.any_eq_true,List.any_eq_true]
      exact exists_congr fun e => and_congr_left fun rejected => members e (counted e rejected)
    rw [restricted,restricted,if_neg (Nat.not_lt.mpr few),if_neg (Nat.not_lt.mpr few'),rejected]
  · intro a b part
    unfold restricted
    by_cases many : limit < b.length
    · exact .inl (if_pos many)
    · have few : ¬ limit < a.length := fun long => many (Nat.lt_of_lt_of_le long part.length_le)
      rw [if_neg many,if_neg few]
      by_cases rejected : b.any rejects = true
      · exact .inl (if_pos rejected)
      · have passed : ¬ a.any rejects = true := by
          intro one
          obtain ⟨e,there,rejecting⟩ := List.any_eq_true.mp one
          exact rejected (List.any_eq_true.mpr ⟨e,part.subset there,rejecting⟩)
        rw [if_neg rejected,if_neg passed]
        exact .inr rfl
theorem unrestricted (answer : Option β) : ActsAsSet limit counts (fun _ : List α => answer) :=
  ⟨fun _ _ _ => rfl,fun _ _ _ _ _ => rfl,fun _ _ _ => .inr rfl⟩
theorem ActsAsSet.bind {β γ : Type v} {verdict : List α → Option β} (acts : ActsAsSet limit counts verdict)
    (next : β → Option γ) :
    ActsAsSet limit counts (fun all => verdict all >>= next) := by
  constructor
  · intro a b permuted
    rw [acts.permuted a b permuted]
  · intro a b few few' members
    rw [acts.same a b few few' members]
  · intro a b part
    rcases acts.restricts a b part with rejected | kept
    · exact .inl (by rw [rejected]; rfl)
    · exact .inr (by rw [kept])

/-! ### Loops over the list -/

/-- A loop rejects at an element by itself, or goes on as if it were not there. -/
def Single (loop : List α → Option Unit) : Prop :=
  loop [] = some () ∧ ∀ e rest, loop [e] = none ∧ loop (e :: rest) = none ∨ loop [e] = some () ∧
    loop (e :: rest) = loop rest
theorem Single.any {loop : List α → Option Unit} (single : Single loop) (all : List α) :
    loop all = if all.any (fun e => (loop [e]).isNone) then none else some () := by
  induction all with
  | nil => exact single.1
  | cons e rest ih =>
    rw [List.any_cons]
    rcases single.2 e rest with ⟨rejects,ends⟩ | ⟨passes,goes_on⟩
    · rw [ends,rejects]
      rfl
    · rw [goes_on,passes,ih]
      rfl

end RelaySwarm.Restrictions
