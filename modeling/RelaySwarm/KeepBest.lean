import RelaySwarm.IndexMap
import Mathlib.Data.List.Induction
import Mathlib.Data.List.Sort

/-!
Of each key the first element in an order is kept, as elements arrive. What is
kept is what comes first among all that arrived (`champions_mem`), so neither the
order of arrival nor repetition matters, and what comes after another with its key
changes nothing (`champions_extend`).
-/
namespace RelaySwarm.KeepBest
universe u v
variable {α : Type u} {κ : Type v} [DecidableEq κ] (key : α → Option κ) (le : α → α → Prop) [DecidableRel le]

/-- An element is kept at its key unless one that is there does not come after it. -/
def keep (kept : IndexMap κ α) (a : α) : IndexMap κ α :=
  match key a with
  | none => kept
  | some k => if (kept.get? k).all (fun previous => ¬ le previous a) then kept.insert k a else kept
def kept (all : List α) : IndexMap κ α := all.foldl (keep key le) .empty
def champions (all : List α) : List α := (kept key le all).values.insertionSort le

/-- An element comes first of all with its key. -/
def Decides (all : List α) (k : κ) (a : α) : Prop :=
  a ∈ all ∧ key a = some k ∧ ∀ b ∈ all, key b = some k → le a b
/-- Elements with a key that come neither before the other are the same. -/
def Antisymmetric (all : List α) : Prop :=
  ∀ a ∈ all, ∀ b ∈ all, (key a).isSome → (key b).isSome → le a b → le b a → a = b

variable {key le}

theorem kept_append (all : List α) (a : α) : kept key le (all ++ [a]) = keep key le (kept key le all) a := by
  rw [kept,List.foldl_append]
  rfl

section
variable [IsTrans α le] [Std.Total le]

theorem kept_decides (all : List α) : (∀ k a, (kept key le all).get? k = some a → Decides key le all k a) ∧
    ∀ k, (∃ a ∈ all, key a = some k) → ((kept key le all).get? k).isSome := by
  induction all using List.reverseRecOn with
  | nil =>
    constructor
    · intro k a held
      exact nomatch held
    · rintro k ⟨a,absent,_⟩
      exact nomatch absent
  | append_singleton all e ih =>
    obtain ⟨first,filled⟩ := ih
    rw [kept_append]
    cases named : key e with
    | none =>
      have same : keep key le (kept key le all) e = kept key le all := by simp only [keep,named]
      rw [same]
      constructor
      · intro k a held
        obtain ⟨member,own,least⟩ := first k a held
        refine ⟨List.mem_append_left _ member,own,?_⟩
        intro b there other
        rcases List.mem_append.mp there with old | new
        · exact least b old other
        · rw [List.mem_singleton.mp new,named] at other
          exact nomatch other
      · rintro k ⟨a,there,own⟩
        rcases List.mem_append.mp there with old | new
        · exact filled k ⟨a,old,own⟩
        · rw [List.mem_singleton.mp new,named] at own
          exact nomatch own
    | some j =>
      by_cases newest : ((kept key le all).get? j).all (fun previous => ¬ le previous e) = true
      · have set : keep key le (kept key le all) e = (kept key le all).insert j e := by
          simp only [keep,named,newest,if_true]
        rw [set]
        constructor
        · intro k a held
          rw [IndexMap.get?_insert] at held
          by_cases same : k = j
          · rw [if_pos same] at held
            obtain rfl := Option.some.inj held
            subst same
            refine ⟨List.mem_append_right _ (List.mem_singleton_self _),named,?_⟩
            intro b there other
            rcases List.mem_append.mp there with old | new
            · obtain ⟨p,found⟩ := Option.isSome_iff_exists.mp (filled k ⟨b,old,other⟩)
              have least := (first k p found).2.2 b old other
              rw [found] at newest
              have above : ¬ le p e := by simpa using newest
              exact trans_of le ((Std.Total.total p e).resolve_left above) least
            · rw [List.mem_singleton.mp new]
              exact (Std.Total.total e e).elim id id
          · rw [if_neg same] at held
            obtain ⟨member,own,least⟩ := first k a held
            refine ⟨List.mem_append_left _ member,own,?_⟩
            intro b there other
            rcases List.mem_append.mp there with old | new
            · exact least b old other
            · rw [List.mem_singleton.mp new,named] at other
              exact absurd (Option.some.inj other).symm same
        · rintro k ⟨a,there,own⟩
          rw [IndexMap.get?_insert]
          by_cases same : k = j
          · rw [if_pos same]
            rfl
          · rw [if_neg same]
            rcases List.mem_append.mp there with old | new
            · exact filled k ⟨a,old,own⟩
            · rw [List.mem_singleton.mp new,named] at own
              exact absurd (Option.some.inj own).symm same
      · have same : keep key le (kept key le all) e = kept key le all := by simp only [keep,named,if_neg newest]
        obtain ⟨p,found,below⟩ : ∃ p, (kept key le all).get? j = some p ∧ le p e := by
          cases held : (kept key le all).get? j with
          | none => simp [held] at newest
          | some p => exact ⟨p,rfl,by simpa [held] using newest⟩
        rw [same]
        constructor
        · intro k a held
          obtain ⟨member,own,least⟩ := first k a held
          refine ⟨List.mem_append_left _ member,own,?_⟩
          intro b there other
          rcases List.mem_append.mp there with old | new
          · exact least b old other
          · rw [List.mem_singleton.mp new,named] at other
            obtain rfl := Option.some.inj other
            rw [found] at held
            rw [List.mem_singleton.mp new,← Option.some.inj held]
            exact below
        · rintro k ⟨a,there,own⟩
          rcases List.mem_append.mp there with old | new
          · exact filled k ⟨a,old,own⟩
          · rw [List.mem_singleton.mp new,named] at own
            rw [← Option.some.inj own,found]
            rfl

theorem kept_iff {all : List α} (anti : Antisymmetric key le all) {k : κ} {a : α} :
    (kept key le all).get? k = some a ↔ Decides key le all k a := by
  constructor
  · exact (kept_decides all).1 k a
  · rintro ⟨member,own,least⟩
    obtain ⟨b,found⟩ :=
      Option.isSome_iff_exists.mp ((kept_decides all).2 k ⟨a,member,own⟩ : ((kept key le all).get? k).isSome)
    obtain ⟨there,other,first⟩ := (kept_decides all).1 k b found
    rw [found,anti b there a member (by rw [other]; rfl) (by rw [own]; rfl) (first a member own) (least b there other)]

theorem champions_mem {all : List α} (anti : Antisymmetric key le all) {a : α} :
    a ∈ champions key le all ↔ ∃ k, Decides key le all k a := by
  rw [champions,List.mem_insertionSort,IndexMap.mem_values]
  exact exists_congr fun k => kept_iff anti

theorem champions_sorted (all : List α) : (champions key le all).Pairwise le := List.pairwise_insertionSort le _

theorem champions_nodup (all : List α) : (champions key le all).Nodup := by
  rw [champions,(List.perm_insertionSort le _).nodup_iff]
  have own : (kept key le all).values.map key = (kept key le all).keys.map some := by
    simp only [IndexMap.values,IndexMap.keys,List.map_map]
    apply List.map_congr_left
    rintro ⟨k,a⟩ member
    exact ((kept_decides all).1 k a (IndexMap.mem_entries.mp member)).2.1
  apply List.Nodup.of_map key
  rw [own]
  exact (kept key le all).distinct.map (Option.some_injective κ)

theorem champions_unique {all winners : List α} (anti : Antisymmetric key le all)
    (decides : ∀ a, a ∈ winners ↔ ∃ k, Decides key le all k a) (sorted : winners.Pairwise le) (nodup : winners.Nodup) :
    winners = champions key le all := by
  have perm : winners.Perm (champions key le all) :=
    (List.perm_ext_iff_of_nodup nodup (champions_nodup all)).mpr (fun a => (decides a).trans (champions_mem anti).symm)
  refine perm.eq_of_pairwise ?_ sorted (champions_sorted all)
  intro a b won lost below above
  obtain ⟨k,member,own,_⟩ := (decides a).mp won
  obtain ⟨j,there,other,_⟩ := (champions_mem anti).mp lost
  exact anti a member b there (by rw [own]; rfl) (by rw [other]; rfl) below above

theorem champions_extend {all all' : List α} (anti : Antisymmetric key le all') (sub : ∀ a ∈ all, a ∈ all')
    (old : ∀ a ∈ all', a ∈ all ∨ key a = none ∨ ∃ b ∈ all, key b = key a ∧ le b a) :
    champions key le all' = champions key le all := by
  have anti' : Antisymmetric key le all := fun a member b there => anti a (sub a member) b (sub b there)
  refine (champions_unique anti ?_ (champions_sorted all) (champions_nodup all)).symm
  intro a
  rw [champions_mem anti']
  apply exists_congr
  intro k
  constructor
  · rintro ⟨member,own,least⟩
    refine ⟨sub a member,own,?_⟩
    intro b there other
    rcases old b there with inside | absent | ⟨c,inside,same,newer⟩
    · exact least b inside other
    · rw [absent] at other
      exact nomatch other
    · exact trans_of le (least c inside (same.trans other)) newer
  · rintro ⟨member,own,least⟩
    have rest : ∀ b ∈ all, key b = some k → le a b := fun b there => least b (sub b there)
    rcases old a member with inside | absent | ⟨b,inside,same,newer⟩
    · exact ⟨inside,own,rest⟩
    · rw [absent] at own
      exact nomatch own
    · have other := same.trans own
      have equal : a = b :=
        anti a member b (sub b inside) (by rw [own]; rfl) (by rw [other]; rfl) (rest b inside other) newer
      exact ⟨equal ▸ inside,own,rest⟩
end
end RelaySwarm.KeepBest
