import Mathlib.Data.List.Nodup

/-!
Finite maps kept in the order their keys were first inserted. No key occurs twice,
which is a field of the structure. A value that is written again keeps its place.
-/
namespace RelaySwarm
universe u v w x

/-- A map from keys to values in insertion order. -/
structure IndexMap (κ : Type u) (α : Type v) where
  entries : List (κ × α)
  distinct : (entries.map (·.1)).Nodup

namespace IndexMap
variable {κ : Type u} {α : Type v} {β : Type w}

def empty : IndexMap κ α := ⟨[],List.nodup_nil⟩
def keys (m : IndexMap κ α) : List κ := m.entries.map (·.1)
def values (m : IndexMap κ α) : List α := m.entries.map (·.2)
def length (m : IndexMap κ α) : Nat := m.entries.length
/-- The entries that meet a condition, in their order. -/
def retain (m : IndexMap κ α) (keep : κ → α → Bool) : IndexMap κ α where
  entries := m.entries.filter (fun e => keep e.1 e.2)
  distinct := m.distinct.sublist (List.filter_sublist.map _)
/-- All entries but the oldest. -/
def dropFirst (m : IndexMap κ α) : IndexMap κ α where
  entries := m.entries.tail
  distinct := m.distinct.sublist ((List.tail_sublist _).map _)
/-- Every value is replaced by a function of its key and itself. -/
def mapValues (m : IndexMap κ α) (f : κ → α → β) : IndexMap κ β where
  entries := m.entries.map (fun e => (e.1,f e.1 e.2))
  distinct := by
    rw [List.map_map]
    exact m.distinct

theorem ext {m n : IndexMap κ α} (same : m.entries = n.entries) : m = n := by
  cases m
  cases n
  cases same
  rfl
@[simp] theorem values_mapValues (m : IndexMap κ α)
  (f : α → β) : (m.mapValues (fun _ => f)).values = m.values.map f := by
  simp [values,mapValues]
@[simp] theorem length_mapValues (m : IndexMap κ α) (f : κ → α → β) : (m.mapValues f).length = m.length := by
  simp [length,mapValues]
theorem mapValues_mapValues {β : Type w} {γ : Type x} (m : IndexMap κ α) (f : κ → α → β) (g : κ → β → γ) :
    (m.mapValues f).mapValues g = m.mapValues (fun k a => g k (f k a)) := ext (by simp [mapValues])
theorem mapValues_congr {m : IndexMap κ α} {f g : κ → α → β} (same : ∀ e ∈ m.entries, f e.1 e.2 = g e.1 e.2) :
    m.mapValues f = m.mapValues g :=
  ext (List.map_congr_left fun e member => by rw [same e member])

variable [DecidableEq κ]

def get? (m : IndexMap κ α) (k : κ) : Option α := (m.entries.find? (·.1 = k)).map (·.2)
def contains (m : IndexMap κ α) (k : κ) : Bool := (m.get? k).isSome
def erase (m : IndexMap κ α) (k : κ) : IndexMap κ α := m.retain (fun key _ => key ≠ k)
/-- The value at one key, when present, is replaced. -/
def modify (m : IndexMap κ α) (k : κ) (f : α → α) : IndexMap κ α :=
  m.mapValues (fun key value => if key = k then f value else value)

theorem contains_iff {m : IndexMap κ α} {k : κ} : m.contains k = true ↔ k ∈ m.keys := by
  simp [contains,get?,keys,List.find?_isSome]

/-- A value is written: in place when its key is present, else at the end. -/
def insert (m : IndexMap κ α) (k : κ) (a : α) : IndexMap κ α :=
  if present : m.contains k then m.modify k (fun _ => a)
  else ⟨m.entries ++ [(k,a)],by
    have absent : k ∉ m.entries.map (·.1) := fun member => present (contains_iff.mpr member)
    rw [List.map_append,List.nodup_append]
    refine ⟨m.distinct,List.nodup_singleton _,?_⟩
    rintro key member _ (_ | _) rfl
    · exact absent member
    · contradiction⟩

theorem mem_entries {m : IndexMap κ α} {k : κ} {a : α} : (k,a) ∈ m.entries ↔ m.get? k = some a := by
  have once : ∀ es : List (κ × α), (es.map (·.1)).Nodup → (k,a) ∈ es → es.find? (·.1 = k) = some (k,a) := by
    intro es
    induction es with
    | nil => simp
    | cons d rest ih =>
      intro distinct member
      obtain ⟨first,later⟩ := List.nodup_cons.mp distinct
      rcases List.mem_cons.mp member with rfl | tail
      · simp
      · have differs : d.1 ≠ k := by
          rintro rfl
          exact first (List.mem_map.mpr ⟨(d.1,a),tail,rfl⟩)
        simp [differs,ih later tail]
  constructor
  · intro member
    simp [get?,once m.entries m.distinct member]
  · intro found
    obtain ⟨e,seen,value⟩ := Option.map_eq_some_iff.mp found
    have key : e.1 = k := by simpa using List.find?_some seen
    have member := List.mem_of_find?_eq_some seen
    subst key value
    exact member
theorem mem_values {m : IndexMap κ α} {a : α} : a ∈ m.values ↔ ∃ k, m.get? k = some a := by
  simp only [values,List.mem_map,Prod.exists,exists_eq_right,mem_entries]
theorem get?_retain {m : IndexMap κ α} {keep : κ → α → Bool} {k : κ} {a : α} :
    (m.retain keep).get? k = some a ↔ m.get? k = some a ∧ keep k a = true := by
  rw [← mem_entries,← mem_entries]
  exact List.mem_filter
theorem get?_dropFirst {m : IndexMap κ α} {k : κ} {a : α} (held : m.dropFirst.get? k = some a) : m.get? k = some a :=
  mem_entries.mp (List.mem_of_mem_tail (mem_entries.mpr held))
theorem erase_erase (m : IndexMap κ α) (k : κ) : (m.erase k).erase k = m.erase k := by
  refine ext ?_
  simp only [erase,retain,List.filter_filter,Bool.and_self]
@[simp] theorem get?_mapValues (m : IndexMap κ α) (f : κ → α → β) (k : κ) :
    (m.mapValues f).get? k = (m.get? k).map (f k) := by
  simp only [get?,mapValues,List.find?_map,Option.map_map]
  cases found : m.entries.find? ((fun e => decide (e.1 = k)) ∘ fun e => (e.1,f e.1 e.2)) with
  | none =>
    have absent : m.entries.find? (·.1 = k) = none := found
    simp [absent]
  | some e =>
    have filled : m.entries.find? (·.1 = k) = some e := found
    have key : e.1 = k := by simpa using List.find?_some filled
    simp [filled,key]
theorem contains_mapValues (m : IndexMap κ α) (f : κ → α → β) (k : κ) : (m.mapValues f).contains k = m.contains k := by
  simp [contains]
theorem mapValues_insert (m : IndexMap κ α) (f : κ → α → β) (k : κ) (a : α) :
    (m.insert k a).mapValues f = (m.mapValues f).insert k (f k a) := by
  unfold insert
  by_cases present : m.contains k = true
  · have present' : (m.mapValues f).contains k = true := (contains_mapValues m f k).trans present
    rw [dif_pos present,dif_pos present']
    simp only [modify,mapValues_mapValues]
    refine mapValues_congr (fun e _ => ?_)
    split_ifs with same
    · rw [same]
    · rfl
  · have absent : ¬ (m.mapValues f).contains k = true := by rwa [contains_mapValues]
    rw [dif_neg present,dif_neg absent]
    exact ext (by simp [mapValues])
theorem get?_insert (m : IndexMap κ α) (k j : κ) (a : α) :
    (m.insert k a).get? j = if j = k then some a else m.get? j := by
  unfold insert
  by_cases present : m.contains k = true
  · rw [dif_pos present,modify,get?_mapValues]
    by_cases same : j = k
    · subst same
      obtain ⟨b,held⟩ := Option.isSome_iff_exists.mp present
      simp [held]
    · simp [same]
  · rw [dif_neg present]
    have absent : m.get? k = none := by simpa [contains] using present
    by_cases same : j = k
    · subst same
      have lacking : m.entries.find? (fun e => decide (e.1 = j)) = none := by simpa [get?] using absent
      simp [get?,List.find?_append,lacking]
    · simp [get?,List.find?_append,Ne.symm same,same]

omit [DecidableEq κ] in
theorem length_retain (m : IndexMap κ α) (keep : κ → α → Bool) : (m.retain keep).length ≤ m.length :=
  List.length_filter_le _ _
theorem length_erase (m : IndexMap κ α) (k : κ) : (m.erase k).length ≤ m.length := length_retain m _
theorem length_insert_present {m : IndexMap κ α} {k : κ} (present : m.contains k = true) (a : α) :
    (m.insert k a).length = m.length := by
  unfold insert
  rw [dif_pos present]
  exact length_mapValues m _
theorem length_insert (m : IndexMap κ α) (k : κ) (a : α) : (m.insert k a).length ≤ m.length + 1 := by
  by_cases present : m.contains k = true
  · rw [length_insert_present present]
    exact Nat.le_succ _
  · unfold insert
    rw [dif_neg present]
    simp [length]

end IndexMap
end RelaySwarm
