import Mathlib.Data.List.Sort
import Mathlib.Order.Basic

/-!
Finite maps kept in ascending key order, as an ordered tree map iterates. The
order of the entries is a field of the structure, so every key occurs once and
membership and lookup agree (`mem_entries`). Updates at one key leave every
other key alone (`get?_modify`, `get?_orInsert`), and a mapped value depends on
its own key only (`get?_mapValues`).
-/
namespace RelaySwarm
universe u v

/-- A map from keys to values, its entries in strictly ascending key order. -/
structure OrderedMap (κ : Type u) (α : Type v) [LinearOrder κ] where
  entries : List (κ × α)
  ascending : entries.Pairwise (fun a b => a.1 < b.1)

namespace OrderedMap
variable {κ : Type u} {α : Type v} [LinearOrder κ]

def empty : OrderedMap κ α := ⟨[],List.Pairwise.nil⟩
def get? (m : OrderedMap κ α) (k : κ) : Option α := (m.entries.find? (·.1 = k)).map (·.2)
def keys (m : OrderedMap κ α) : List κ := m.entries.map (·.1)
def values (m : OrderedMap κ α) : List α := m.entries.map (·.2)

/-- Every value is replaced by a function of its key and itself. -/
def mapValues (m : OrderedMap κ α) (f : κ → α → α) : OrderedMap κ α where
  entries := m.entries.map (fun e => (e.1,f e.1 e.2))
  ascending := by
    rw [List.pairwise_map]
    exact m.ascending
/-- The value at one key, when present, is replaced. -/
def modify (m : OrderedMap κ α) (k : κ) (f : α → α) : OrderedMap κ α :=
  m.mapValues (fun key value => if key = k then f value else value)

private def place (k : κ) (a : α) : List (κ × α) → List (κ × α)
  | [] => [(k,a)]
  | e :: rest => if k < e.1 then (k,a) :: e :: rest else if e.1 = k then e :: rest else e :: place k a rest

private theorem place_keys (k : κ) (a : α) (es : List (κ × α)) (e : κ × α) (member : e ∈ place k a es) :
    e = (k,a) ∨ e ∈ es := by
  induction es with
  | nil => simp only [place,List.mem_singleton] at member; exact .inl member
  | cons d rest ih =>
    unfold place at member
    split_ifs at member with below same
    · rcases List.mem_cons.mp member with head | tail
      · exact .inl head
      · exact .inr tail
    · exact .inr member
    · rcases List.mem_cons.mp member with head | tail
      · exact .inr (head ▸ List.mem_cons_self)
      · rcases ih tail with new | old
        · exact .inl new
        · exact .inr (List.mem_cons_of_mem _ old)
private theorem place_ascending (k : κ) (a : α) (es : List (κ × α))
    (asc : es.Pairwise (fun a b => a.1 < b.1)) : (place k a es).Pairwise (fun a b => a.1 < b.1) := by
  induction es with
  | nil => simp [place]
  | cons d rest ih =>
    obtain ⟨first,later⟩ := List.pairwise_cons.mp asc
    unfold place
    split_ifs with below same
    · refine List.pairwise_cons.mpr ⟨?_,asc⟩
      intro e member
      rcases List.mem_cons.mp member with rfl | tail
      · exact below
      · exact below.trans (first e tail)
    · exact asc
    · refine List.pairwise_cons.mpr ⟨?_,ih later⟩
      intro e member
      rcases place_keys k a rest e member with rfl | old
      · exact lt_of_le_of_ne (not_lt.mp below) same
      · exact first e old

/-- The value is inserted when the key is absent. -/
def orInsert (m : OrderedMap κ α) (k : κ) (a : α) : OrderedMap κ α :=
  ⟨place k a m.entries,place_ascending k a m.entries m.ascending⟩

private theorem find_of_mem {es : List (κ × α)} (asc : es.Pairwise (fun a b => a.1 < b.1)) {k : κ} {a : α}
    (member : (k,a) ∈ es) : es.find? (·.1 = k) = some (k,a) := by
  induction es with
  | nil => simp at member
  | cons d rest ih =>
    obtain ⟨first,later⟩ := List.pairwise_cons.mp asc
    rcases List.mem_cons.mp member with rfl | tail
    · simp
    · have differs : d.1 ≠ k := ne_of_lt (first _ tail)
      simp [differs,ih later tail]

theorem mem_entries {m : OrderedMap κ α} {k : κ} {a : α} : (k,a) ∈ m.entries ↔ m.get? k = some a := by
  constructor
  · intro member
    simp [get?,find_of_mem m.ascending member]
  · intro found
    obtain ⟨e,seen,value⟩ := Option.map_eq_some_iff.mp found
    have key : e.1 = k := by simpa using List.find?_some seen
    have member := List.mem_of_find?_eq_some seen
    subst key value
    exact member
theorem mem_values {m : OrderedMap κ α} {a : α} : a ∈ m.values ↔ ∃ k, m.get? k = some a := by
  simp only [values,List.mem_map,Prod.exists,exists_eq_right,mem_entries]
theorem mem_keys {m : OrderedMap κ α} {k : κ} : k ∈ m.keys ↔ ∃ a, m.get? k = some a := by
  simp only [keys,List.mem_map,Prod.exists,exists_and_right,exists_eq_right,mem_entries]

@[simp] theorem get?_mapValues (m : OrderedMap κ α) (f : κ → α → α) (k : κ) :
    (m.mapValues f).get? k = (m.get? k).map (f k) := by
  simp only [get?,mapValues]
  induction m.entries with
  | nil => rfl
  | cons e rest ih =>
    rw [List.map_cons,List.find?_cons,List.find?_cons]
    by_cases same : e.1 = k
    · subst same; simp
    · simp only [same,decide_false]; exact ih
theorem get?_modify (m : OrderedMap κ α) (k j : κ) (f : α → α) :
    (m.modify k f).get? j = if j = k then (m.get? j).map f else m.get? j := by
  rw [modify,get?_mapValues]
  split_ifs with same
  · rfl
  · simp
@[simp] theorem get?_modify_self (m : OrderedMap κ α) (k : κ) (f : α → α) :
    (m.modify k f).get? k = (m.get? k).map f := by
  simp [get?_modify]
theorem get?_modify_of_ne (m : OrderedMap κ α) {k j : κ} (f : α → α) (differs : j ≠ k) :
    (m.modify k f).get? j = m.get? j := by
  simp [get?_modify,differs]

private theorem find_place (k j : κ) (a : α) (es : List (κ × α)) (asc : es.Pairwise (fun a b => a.1 < b.1)) :
    (place k a es).find? (·.1 = j) =
      if j = k ∧ es.find? (·.1 = k) = none then some (k,a) else es.find? (·.1 = j) := by
  induction es with
  | nil =>
    by_cases same : k = j
    · subst same; simp [place]
    · simp [place,same,Ne.symm same]
  | cons d rest ih =>
    obtain ⟨first,later⟩ := List.pairwise_cons.mp asc
    unfold place
    by_cases below : k < d.1
    · have absent : (d :: rest).find? (·.1 = k) = none := by
        rw [List.find?_eq_none]
        intro e member
        have above : k < e.1 := by
          rcases List.mem_cons.mp member with rfl | tail
          · exact below
          · exact below.trans (first e tail)
        simpa using ne_of_gt above
      rw [if_pos below,absent,List.find?_cons]
      by_cases same : k = j
      · subst same; simp
      · simp only [same,decide_false,Ne.symm same,false_and,if_false]
    · rw [if_neg below]
      by_cases same : d.1 = k
      · simp [same]
      · rw [if_neg same,List.find?_cons,List.find?_cons,List.find?_cons,ih later]
        by_cases here : d.1 = j
        · have : j ≠ k := fun equal => same (here.trans equal)
          simp [here,this]
        · simp only [here,same,decide_false]

theorem get?_orInsert (m : OrderedMap κ α) (k j : κ) (a : α) :
    (m.orInsert k a).get? j = if j = k then some ((m.get? k).getD a) else m.get? j := by
  unfold get? orInsert
  rw [find_place k j a m.entries m.ascending]
  by_cases same : j = k
  · subst same
    cases m.entries.find? (·.1 = j) <;> simp
  · simp [same]

private theorem place_present (k : κ) (a : α) (es : List (κ × α)) (asc : es.Pairwise (fun a b => a.1 < b.1))
    (present : ∃ e ∈ es, e.1 = k) : place k a es = es := by
  induction es with
  | nil => simp at present
  | cons d rest ih =>
    obtain ⟨first,later⟩ := List.pairwise_cons.mp asc
    obtain ⟨e,member,key⟩ := present
    unfold place
    rcases List.mem_cons.mp member with rfl | tail
    · rw [if_neg (by simp [key]),if_pos key]
    · have below := first e tail
      rw [key] at below
      rw [if_neg (not_lt.mpr (le_of_lt below)),if_neg (ne_of_lt below),ih later ⟨e,tail,key⟩]
theorem orInsert_present {m : OrderedMap κ α} {k : κ} {b : α} (found : m.get? k = some b) (a : α) :
    m.orInsert k a = m := by
  have same := place_present k a m.entries m.ascending ⟨(k,b),mem_entries.mpr found,rfl⟩
  cases m
  simp only [orInsert,OrderedMap.mk.injEq]
  exact same

end OrderedMap
end RelaySwarm
