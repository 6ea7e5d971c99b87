import RelaySwarm.TransferRuns
import RelaySwarm.PieceGeometry
import Mathlib.Algebra.BigOperators.Group.List.Basic
import Mathlib.Algebra.Order.BigOperators.Group.Finset

/-!
What a call adds to the verified bytes of a transfer: at most the bytes it carries, so
that only an answer adds any, and never more than the object has. The object is handed
over by the call that verifies its last piece, or not at all.
-/
namespace RelaySwarm.Transfers
open Pieces Planning

variable {t u : Transfer} {room n : Nat} {e : Event}
/-- How many bytes a call carries. -/
def Event.carried : Event → Nat
  | .delivered _ _ _ bytes => bytes.length
  | _ => 0

namespace Transfer

/-- The pieces of a transfer are those of an object of its size. -/
structure Fitted (t : Transfer) : Prop where
  counted : pieceCount t.size = some t.verified.length
  pieceSize : t.pieceSize = commitmentPieceSize t.size
def verifiedSet (t : Transfer) : Finset Nat := ((List.range t.verified.length).filter t.isVerified).toFinset

theorem mem_verifiedSet {i : Nat} : i ∈ t.verifiedSet ↔ i < t.verified.length ∧ t.isVerified i = true := by
  simp [verifiedSet]
theorem verifiedBytes_eq (t : Transfer) : t.verifiedBytes = ∑ i ∈ t.verifiedSet, pieceBytes t.size t.pieceSize i := by
  unfold verifiedBytes verifiedSet
  exact (List.sum_toFinset _ (List.nodup_range.filter _)).symm
theorem verifiedBytes_congr (object : u.object = t.object) (verified : u.verified = t.verified) :
    u.verifiedBytes = t.verifiedBytes := by
  have size : u.size = t.size := congrArg Object.size object
  have piece : u.pieceSize = t.pieceSize := congrArg Object.pieceSize object
  have same : u.isVerified = t.isVerified := funext (fun i => by rw [isVerified,verified,← isVerified])
  rw [verifiedBytes,verified,same,size,piece,← verifiedBytes]
theorem Fitted.congr (fitted : Fitted t) (object : u.object = t.object) : Fitted u := by
  have size : u.size = t.size := congrArg Object.size object
  have piece : u.pieceSize = t.pieceSize := congrArg Object.pieceSize object
  have count : u.verified.length = t.verified.length := congrArg Object.count object
  exact ⟨by rw [size,count]; exact fitted.counted,by rw [piece,size]; exact fitted.pieceSize⟩
theorem Fitted.rangeLength (fitted : Fitted t) (range : PieceRange) (some : range.start < range.stop)
    (inside : range.stop ≤ t.verified.length) :
    ∑ i ∈ range.indices.toFinset, pieceBytes t.size t.pieceSize i = t.rangeLength range := by
  have distinct : range.indices.Nodup := List.nodup_range'
  rw [List.sum_toFinset _ distinct,fitted.pieceSize,pieceBytes_sum fitted.counted range.stop some.le inside]
  unfold Transfer.rangeLength pieceRangeBytes
  rw [fitted.pieceSize]
  dsimp only
  omega
theorem Fitted.whole (fitted : Fitted t) :
    ∑ i ∈ Finset.range t.verified.length, pieceBytes t.size t.pieceSize i = t.size := by
  have some := pieceCount_pos fitted.counted
  have all := fitted.rangeLength ⟨0,t.verified.length⟩ some le_rfl
  have same : (⟨0,t.verified.length⟩ : PieceRange).indices.toFinset = Finset.range t.verified.length := by
    ext i
    simp [PieceRange.indices]
  rw [same] at all
  rw [all]
  unfold Transfer.rangeLength pieceRangeBytes
  rw [fitted.pieceSize]
  have covers := (pieceCount_covers fitted.counted).1
  dsimp only
  omega
theorem Fitted.below (fitted : Fitted t) : t.verifiedBytes ≤ t.size := by
  rw [verifiedBytes_eq]
  calc ∑ i ∈ t.verifiedSet, pieceBytes t.size t.pieceSize i
      ≤ ∑ i ∈ Finset.range t.verified.length, pieceBytes t.size t.pieceSize i := by
        refine Finset.sum_le_sum_of_subset (fun i member => ?_)
        exact Finset.mem_range.mpr (mem_verifiedSet.mp member).1
    _ = t.size := fitted.whole
theorem Fitted.complete (fitted : Fitted t) (complete : t.verified.all id = true) :
    t.verifiedBytes = t.size := by
  have all : t.verifiedSet = Finset.range t.verified.length := by
    ext i
    rw [mem_verifiedSet,Finset.mem_range]
    refine ⟨fun both => both.1,fun inside => ⟨inside,?_⟩⟩
    have done := List.all_eq_true.mp complete _ (List.getElem_mem inside)
    simpa [isVerified,inside] using done
  rw [verifiedBytes_eq,all,fitted.whole]

theorem new_size {config : TransferConfig} {size : Nat} {digest : String} {pieces : List String} {deadline : Nat}
    (made : new config size digest pieces deadline = some t) : t.size = size := by
  unfold new at made
  cases counted : pieceCount size with
  | none => simp [counted] at made
  | some count =>
    simp only [counted,Option.bind_eq_bind,Option.bind_some] at made
    split_ifs at made
    simp only [Option.bind_eq_some_iff] at made
    obtain ⟨_,_,_,_,same⟩ := made
    cases same
    rfl

/-- What a call has done before it ends the transfer, with room for so many bytes: it
    verified at most these, and said nothing that ends the transfer. -/
structure Credits (t : Transfer) (room : Nat) (u : Transfer) : Prop where
  object : u.object = t.object
  grows : t.verifiedBytes ≤ u.verifiedBytes
  within : u.verifiedBytes ≤ t.verifiedBytes + room
  plain : ∀ c ∈ u.commands, c.ends = false

theorem Credits.refl (silent : t.commands = []) (room : Nat) : Credits t room t :=
  ⟨rfl,le_rfl,by omega,by simp [silent]⟩
theorem Credits.works {t u v : Transfer} (credits : Credits t room u) (works : Works u v) :
    Credits t room v := by
  have object := works.object
  have same : v.verifiedBytes = u.verifiedBytes := verifiedBytes_congr object works.verified
  obtain ⟨cs,told,plain⟩ := works.told
  refine ⟨object.trans credits.object,by rw [same]; exact credits.grows,by rw [same]; exact credits.within,?_⟩
  intro c member
  rw [told] at member
  exact (List.mem_append.mp member).elim (credits.plain c) (plain c)

section
variable (sha256 : List UInt8 → Digest)

theorem response_credits (orderly : Orderly t) (fitted : Fitted t) (silent : t.commands = [])
    {source : Source} {lane : Lane} (found : t.lanes.get? source = some lane) {range : PieceRange} {sent : Nat}
    (flying : (range,sent) ∈ lane.inFlight) {bytes : List UInt8} (length : bytes.length = t.rangeLength range) :
    Credits t bytes.length (response sha256 t source range bytes).transfer := by
  obtain ⟨frame,count,some,inside,grows,others,_⟩ := response_facts sha256 orderly found flying bytes
  generalize response sha256 t source range bytes = c at frame count grows others
  have object : c.transfer.object = t.object := by
    rw [frame]
    simp only [Transfer.object,count]
  have size : c.transfer.size = t.size := congrArg Object.size object
  have piece : c.transfer.pieceSize = t.pieceSize := congrArg Object.pieceSize object
  refine ⟨object,?_,?_,by rw [frame]; simp [silent]⟩
  · rw [verifiedBytes_eq,verifiedBytes_eq,size,piece]
    refine Finset.sum_le_sum_of_subset (fun i member => ?_)
    obtain ⟨below,done⟩ := mem_verifiedSet.mp member
    exact mem_verifiedSet.mpr ⟨by rw [count]; exact below,grows i done⟩
  · rw [length,← fitted.rangeLength range some inside,verifiedBytes_eq,verifiedBytes_eq,size,piece]
    -- What is verified now was verified before, or is a piece of the range.
    have covered : c.transfer.verifiedSet ⊆ t.verifiedSet ∪ range.indices.toFinset := by
      intro i member
      obtain ⟨below,done⟩ := mem_verifiedSet.mp member
      rw [Finset.mem_union,List.mem_toFinset]
      by_cases asked : i ∈ range.indices
      · exact .inr asked
      · exact .inl (mem_verifiedSet.mpr ⟨by rw [← count]; exact below,by rw [← others i asked]; exact done⟩)
    have union : ∑ i ∈ t.verifiedSet ∪ range.indices.toFinset, pieceBytes t.size t.pieceSize i +
        ∑ i ∈ t.verifiedSet ∩ range.indices.toFinset, pieceBytes t.size t.pieceSize i = _ := Finset.sum_union_inter
    have below := Finset.sum_le_sum_of_subset (f := pieceBytes t.size t.pieceSize) covered
    omega
theorem Entered.credits (entered : Entered sha256 t e u) (orderly : Orderly t)
    (fitted : Fitted t) (silent : t.commands = []) : Credits t e.carried u := by
  cases entered with
  | tick | progress | late | unasked | short | unused => exact .refl silent _
  | fails | wrong => exact (Credits.refl silent _).works (retire_works t _)
  | spoiled found flying _ length => exact response_credits sha256 orderly fitted silent found flying length
  | @answered _ source _ _ range bytes found flying _ length =>
    have credits := response_credits sha256 orderly fitted silent found flying length
    obtain ⟨_,_,frame⟩ := credited_frame (response sha256 t source range bytes) source
    rw [frame]
    exact ⟨credits.object,credits.grows,credits.within,credits.plain⟩

/-- What a call adds to the verified bytes, and what it says. -/
structure Credited (t : Transfer) (room : Nat) (u : Transfer) : Prop where
  object : u.object = t.object
  grows : t.verifiedBytes ≤ u.verifiedBytes
  within : u.verifiedBytes ≤ t.verifiedBytes + room
  handed : ∀ object, .deliver object ∈ u.commands → u.verifiedBytes = u.size

theorem Credits.silent (credits : Credits t room u) : Credited t room u :=
  ⟨credits.object,credits.grows,credits.within,fun _ told => by cases credits.plain _ told⟩
theorem Credits.fails {t u : Transfer} {room : Nat} (credits : Credits t room u) : Credited t room u.fail := by
  refine ⟨credits.object,credits.grows,credits.within,fun object told => ?_⟩
  simp only [fail,closeOut,push,List.append_assoc,List.mem_append,List.mem_singleton,reduceCtorEq,or_false] at told
  rcases told with early | cancelled
  · cases credits.plain _ early
  · cases cancels_plain cancelled
theorem Credits.ended {t u v : Transfer} (credits : Credits t room u) (fitted : Fitted t)
    (ending : Ending sha256 u v) : Credited t room v := by
  cases ending with
  | runs => exact credits.silent
  | fails => exact credits.fails
  | finishes complete =>
    have whole : u.verifiedBytes = u.size := (fitted.congr credits.object).complete complete
    unfold finish
    split_ifs with mismatch
    · exact credits.fails
    · exact ⟨credits.object,credits.grows,credits.within,fun _ _ => whole⟩
/-- A call of a running transfer verifies at most the bytes it carries, and hands the
    object over with all its bytes verified. -/
theorem handle_credited (ready : Ready t) (busy : t.peerOnly = false → ∀ s, Busy t s)
    (fitted : Fitted t) (silent : t.commands = []) (later : e.starts = false) :
    Credited t e.carried (handle sha256 t e) := by
  obtain ⟨w,credits,_,ending⟩ := handle_induction sha256 ready busy later (P := Credits t e.carried)
    (fun u entered => entered.credits sha256 ready.orderly fitted silent)
    (fun u v _ credits act => credits.works act.works)
    (fun now _ _ ready credits => credits.works (endgame_ready ready now).2)
  exact credits.ended sha256 fitted ending
theorem between_credited (between : Between n t) (fitted : Fitted t)
    (silent : t.commands = []) (later : e.starts = false) : Credited t e.carried (handle sha256 t e) := by
  rcases between with concluded | rested
  · rw [handle_finished sha256 concluded later]
    exact (Credits.refl silent _).silent
  · exact handle_credited sha256 rested.ready rested.busy fitted silent later
omit sha256 in
theorem fresh_bytes (fresh : ∀ i, t.isVerified i = false) : t.verifiedBytes = 0 := by
  have none : t.isVerified = fun _ => false := funext fresh
  simp [verifiedBytes,none]
theorem begins_credited (newborn : Newborn n t) {first : Event} (begins : Begins t first) :
    Credited t 0 (handle sha256 t first) := by
  obtain ⟨u,opened,same⟩ := begins_opened sha256 newborn begins
  have bare : Credits t 0 u :=
    ⟨opened.object,
      by rw [fresh_bytes newborn.fresh]; omega,by rw [fresh_bytes opened.fresh]; omega,by simp [opened.commands]⟩
  rw [same]
  rcases opened.course first.roster.1 with acts | ⟨v,acts,failing⟩
  · exact (bare.works acts.works).silent
  · rw [failing]
    exact (bare.works acts.works).fails
end

end Transfer
end RelaySwarm.Transfers
