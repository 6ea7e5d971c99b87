import Mathlib.Data.List.Nodup
import Mathlib.Data.List.Induction

/-!
A bounded memory of values that are made from keys. What is recalled moves to the back; what
was used longest ago goes when there is no room; what cannot be made is not kept. It answers
as making the value anew would (`remember_answers`), and holds the keys used last
(`remembers_recent`).
-/
namespace RelaySwarm.Recent

section
variable {κ α : Type} [DecidableEq κ] (capacity : Nat) (make : κ → Option α)

def remember (kept : List (κ × α)) (key : κ) : Option α × List (κ × α) :=
  match kept.find? (·.1 = key) with
  | some entry => (some entry.2,kept.filter (fun other => other.1 ≠ key) ++ [(key,entry.2)])
  | none =>
    match make key with
    | none => (none,kept)
    | some value => (some value,(if capacity ≤ kept.length then kept.tail else kept) ++ [(key,value)])
def remembers (kept : List (κ × α)) (uses : List κ) : List (κ × α) :=
  uses.foldl (fun kept key => (remember capacity make kept key).2) kept
def lastUses (uses : List κ) : List κ := uses.foldl (fun last key => last.filter (· ≠ key) ++ [key]) []

/-- Every value is the one its key makes, no key occurs twice, and there is room. -/
structure Kept (kept : List (κ × α)) : Prop where
  made : ∀ entry ∈ kept, make entry.1 = some entry.2
  distinct : (kept.map (·.1)).Nodup
  few : kept.length ≤ capacity

variable {capacity : Nat} {make : κ → Option α} {kept : List (κ × α)}

omit [DecidableEq κ] in
theorem kept_nil : Kept capacity make [] := ⟨fun _ none => (nomatch none),List.nodup_nil,Nat.zero_le _⟩
theorem remember_answers (holds : Kept capacity make kept) (key : κ) :
    (remember capacity make kept key).1 = make key := by
  unfold remember
  split
  · rename_i entry found
    have same : entry.1 = key := by simpa using List.find?_some found
    rw [← same]
    exact (holds.made entry (List.mem_of_find?_eq_some found)).symm
  · split
    · rename_i none
      exact none.symm
    · rename_i value made
      exact made.symm
theorem remember_unmade (holds : Kept capacity make kept) {key : κ} (unmade : make key = none) :
    (remember capacity make kept key).2 = kept := by
  unfold remember
  split
  · rename_i entry found
    have same : entry.1 = key := by simpa using List.find?_some found
    have made := holds.made entry (List.mem_of_find?_eq_some found)
    rw [same,unmade] at made
    cases made
  · rw [unmade]
theorem remembers_snoc (uses : List κ) (key : κ) :
    remembers capacity make kept (uses ++ [key]) =
      (remember capacity make (remembers capacity make kept uses) key).2 := by
  unfold remembers
  rw [List.foldl_append]
  rfl
theorem remember_keys (holds : Kept capacity make kept) (key : κ) :
    (remember capacity make kept key).2.map (·.1) =
      if make key = none then kept.map (·.1)
      else if key ∈ kept.map (·.1) then (kept.map (·.1)).filter (· ≠ key) ++ [key]
      else (if capacity ≤ kept.length then (kept.map (·.1)).tail else kept.map (·.1)) ++ [key] := by
  unfold remember
  split
  · rename_i entry found
    have same : entry.1 = key := by simpa using List.find?_some found
    have member := List.mem_of_find?_eq_some found
    have made : ¬ make key = none := by
      rw [← same,holds.made entry member]
      simp
    rw [if_neg made,if_pos (List.mem_map.mpr ⟨entry,member,same⟩),List.map_append,List.filter_map]
    rfl
  · rename_i absent
    have absent' : key ∉ kept.map (·.1) := by
      rintro present
      obtain ⟨entry,member,same⟩ := List.mem_map.mp present
      have none := List.find?_eq_none.mp absent entry member
      simp [same] at none
    split
    · rename_i unmade
      rw [if_pos unmade]
    · rename_i value made
      have unmade : ¬ make key = none := by
        rw [made]
        simp
      rw [if_neg unmade,if_neg absent',List.map_append]
      split_ifs
      · rw [List.map_tail]
        rfl
      · rfl
theorem remember_kept (room : 0 < capacity) (holds : Kept capacity make kept) (key : κ) :
    Kept capacity make (remember capacity make kept key).2 := by
  have keys := remember_keys holds key
  refine ⟨?_,?_,?_⟩
  · intro entry member
    unfold remember at member
    split at member
    · rename_i found' found
      have same : found'.1 = key := by simpa using List.find?_some found
      rcases List.mem_append.mp member with old | new
      · exact holds.made entry (List.mem_of_mem_filter old)
      · rw [List.mem_singleton.mp new,← same]
        exact holds.made found' (List.mem_of_find?_eq_some found)
    · split at member
      · exact holds.made entry member
      · rename_i value made
        rcases List.mem_append.mp member with old | new
        · split_ifs at old
          · exact holds.made entry (List.mem_of_mem_tail old)
          · exact holds.made entry old
        · rw [List.mem_singleton.mp new]
          exact made
  · rw [keys]
    have alone : ∀ keys : List κ, keys.Nodup → key ∉ keys → (keys ++ [key]).Nodup := by
      intro keys distinct absent
      refine List.nodup_append.mpr ⟨distinct,List.nodup_singleton _,?_⟩
      rintro other member _ (_ | _) rfl
      · exact absent member
      · contradiction
    split_ifs with unmade present full
    · exact holds.distinct
    · exact alone _ (holds.distinct.filter _) (by simp)
    · exact alone _ (holds.distinct.sublist (List.tail_sublist _)) (fun member => present (List.mem_of_mem_tail member))
    · exact alone _ holds.distinct present
  · have few := holds.few
    have length := congrArg List.length keys
    rw [List.length_map] at length
    rw [length]
    split_ifs with unmade present full
    · rw [List.length_map]
      exact few
    · have less : ((kept.map (·.1)).filter (· ≠ key)).length < (kept.map (·.1)).length :=
        List.length_filter_lt_length_iff_exists.mpr ⟨key,present,by simp⟩
      rw [List.length_map] at less
      rw [List.length_append,List.length_singleton]
      exact Nat.succ_le_of_lt (Nat.lt_of_lt_of_le less few)
    · rw [List.length_append,List.length_tail,List.length_map,List.length_singleton]
      omega
    · rw [List.length_append,List.length_map,List.length_singleton]
      omega
theorem remembers_kept (room : 0 < capacity) (holds : Kept capacity make kept) (uses : List κ) :
    Kept capacity make (remembers capacity make kept uses) := by
  induction uses generalizing kept with
  | nil => exact holds
  | cons key rest ih => exact ih (remember_kept room holds key)
theorem remembers_recent (room : 0 < capacity) (uses : List κ) (each : ∀ key ∈ uses, make key ≠ none) :
    ∃ older, lastUses uses = older ++ (remembers capacity make [] uses).map (·.1) ∧
      (older ≠ [] → (remembers capacity make [] uses).length = capacity) := by
  induction uses using List.reverseRecOn with
  | nil => exact ⟨[],rfl,fun none => absurd rfl none⟩
  | append_singleton uses key ih =>
    obtain ⟨older,same,full⟩ := ih (fun other member => each other (List.mem_append_left _ member))
    have holds : Kept capacity make (remembers capacity make [] uses) := remembers_kept room kept_nil uses
    have keys := remember_keys holds key
    have uses' : lastUses (uses ++ [key]) = (lastUses uses).filter (· ≠ key) ++ [key] := by
      unfold lastUses
      rw [List.foldl_append]
      rfl
    rw [remembers_snoc,uses',same,List.filter_append]
    rw [if_neg (each key (List.mem_append_right _ List.mem_cons_self))] at keys
    generalize remembers capacity make [] uses = kept at full holds keys ⊢
    have length := congrArg List.length keys
    rw [List.length_map] at length
    by_cases present : key ∈ kept.map (·.1)
    · rw [if_pos present] at keys length
      have erased : (kept.map (·.1)).filter (· ≠ key) = (kept.map (·.1)).erase key := by
        rw [List.Nodup.erase_eq_filter holds.distinct]
        exact List.filter_congr (fun other _ => by by_cases same : other = key <;> simp [same])
      have count : ((remember capacity make kept key).2).length = kept.length := by
        have given := List.length_pos_of_mem present
        rw [length,erased,List.length_append,List.length_erase_of_mem present,List.length_map,List.length_singleton]
        rw [List.length_map] at given
        omega
      refine ⟨older.filter (· ≠ key),by rw [keys,List.append_assoc],fun given => count.trans (full ?_)⟩
      rintro rfl
      exact given rfl
    · rw [if_neg present] at keys length
      have others : (kept.map (·.1)).filter (· ≠ key) = kept.map (·.1) := by
        refine List.filter_eq_self.mpr (fun other member => ?_)
        simpa using fun same' : other = key => present (same' ▸ member)
      rw [others,keys]
      by_cases room' : capacity ≤ kept.length
      · rw [if_pos room'] at length ⊢
        obtain ⟨first,rest,split⟩ := List.exists_cons_of_ne_nil (l := kept.map (·.1)) (by
          intro none
          rw [List.map_eq_nil_iff] at none
          rw [none] at room'
          exact absurd room' (Nat.not_le_of_lt room))
        refine ⟨older.filter (· ≠ key) ++ [first],?_,fun _ => ?_⟩
        · rw [split]
          simp
        · rw [length,List.length_append,List.length_tail,List.length_map,List.length_singleton]
          have few := holds.few
          omega
      · rw [if_neg room'] at length ⊢
        refine ⟨older.filter (· ≠ key),by rw [List.append_assoc],fun given => ?_⟩
        have filled := full (by rintro rfl; exact given rfl)
        omega

end
end RelaySwarm.Recent
