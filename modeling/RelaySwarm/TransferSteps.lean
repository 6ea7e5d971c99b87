import RelaySwarm.Transfer

/-!
What work on the lanes of a transfer leaves alone. Queueing, issuing, retiring
and assigning change neither the object nor the bytes verified of it, and tell
the shell only commands that do not end the transfer (`Works`). A mixed transfer
never fails while work is assigned (`assign_works`); a peer-only one fails only
when its floor has come or no lane is left (`refillPeerOnly_cases`).
-/
namespace RelaySwarm.Transfers
open Pieces Planning

variable {t t' : Transfer} {i : Nat}
structure Fixed where
  config : TransferConfig
  peerOnly : Bool
  exclusiveOrigin : Bool
  started : Bool
  size : Nat
  pieceSize : Nat
  hashes : List Digest
  whole : Digest
  deadline : Nat
  data : List UInt8
  verified : List Bool

/-- `Deliver` and `Fail` end a transfer. -/
def Command.ends : Command → Bool
  | .deliver _ => true
  | .fail => true
  | _ => false

namespace Transfer

def fixed (t : Transfer) : Fixed :=
  ⟨t.config,t.peerOnly,t.exclusiveOrigin,t.started,t.size,t.pieceSize,t.hashes,t.whole,t.deadline,t.data,t.verified⟩

/-- The step changes neither the object nor what is verified of it, and tells the
    shell nothing that ends the transfer. -/
structure Works (t t' : Transfer) : Prop where
  fixed : t'.fixed = t.fixed
  finished : t'.finished = t.finished
  told : ∃ cs, t'.commands = t.commands ++ cs ∧ ∀ c ∈ cs, c.ends = false

theorem Works.refl (t : Transfer) : Works t t := ⟨rfl,rfl,[],by simp,by simp⟩
theorem Works.trans {a b c : Transfer} (first : Works a b) (second : Works b c) : Works a c := by
  obtain ⟨cs,said,plain⟩ := first.told
  obtain ⟨ds,thence,more⟩ := second.told
  refine ⟨second.fixed.trans first.fixed,second.finished.trans first.finished,cs ++ ds,?_,?_⟩
  · rw [thence,said,List.append_assoc]
  · intro c member
    rcases List.mem_append.mp member with early | late
    · exact plain c early
    · exact more c late
theorem Works.quiet (fixed : t'.fixed = t.fixed) (finished : t'.finished = t.finished)
    (commands : t'.commands = t.commands) : Works t t' :=
  ⟨fixed,finished,[],by simp [commands],by simp⟩
theorem Works.foldl {α : Type} {f : Transfer → α → Transfer} (each : ∀ t a, Works t (f t a)) (as : List α) :
    ∀ t, Works t (as.foldl f t) := by
  induction as with
  | nil => exact Works.refl
  | cons a rest ih => intro t; exact (each t a).trans (ih (f t a))

theorem Works.peerOnly {t t' : Transfer} (h : Works t t') : t'.peerOnly = t.peerOnly := congrArg Fixed.peerOnly h.fixed
theorem Works.exclusive (h : Works t t') : t'.exclusiveOrigin = t.exclusiveOrigin :=
  congrArg Fixed.exclusiveOrigin h.fixed
theorem Works.verified (h : Works t t') : t'.verified = t.verified := congrArg Fixed.verified h.fixed
theorem Works.pieceSize (h : Works t t') : t'.pieceSize = t.pieceSize :=
  congrArg Fixed.pieceSize h.fixed
theorem Works.floorAt (h : Works t t') : t'.floorAt = t.floorAt := by
  unfold Transfer.floorAt
  rw [show t'.deadline = t.deadline from congrArg Fixed.deadline h.fixed,
    show t'.config = t.config from congrArg Fixed.config h.fixed]
theorem Works.keeps_told (h : Works t t') {c : Command} (told : c ∈ t.commands) : c ∈ t'.commands := by
  obtain ⟨cs,same,_⟩ := h.told
  rw [same]
  exact List.mem_append_left _ told
theorem Works.isVerified (h : Works t t') (i : Nat) : t'.isVerified i = t.isVerified i := by
  simp [Transfer.isVerified,h.verified]

/-! ### The steps of work -/

theorem push_works (t : Transfer) {command : Command} (plain : command.ends = false) : Works t (t.push command) :=
  ⟨rfl,rfl,[command],rfl,by simpa using plain⟩
theorem requestOf_plain (source : Source) (range : PieceRange) : (requestOf source range).ends = false := by
  cases source <;> rfl
theorem issue_works (t : Transfer) (now : Nat) (source : Source) : Works t (t.issue now source) := by
  unfold issue
  cases t.lanes.get? source with
  | none => exact Works.refl t
  | some lane =>
    simp only
    split_ifs
    · exact Works.refl t
    all_goals
      refine ⟨rfl,rfl,_,rfl,?_⟩
      intro c member
      obtain ⟨range,_,same⟩ := List.mem_map.mp member
      exact same ▸ requestOf_plain source range
theorem openLane_works (t : Transfer) (now : Nat) (estimate : Estimate) : Works t (t.openLane now estimate) :=
  Works.quiet rfl rfl rfl
theorem extendQueue_works (t : Transfer) (source : Source) (ranges : List PieceRange) (finishAt : ℚ → ℚ) :
    Works t (t.extendQueue source ranges finishAt) := Works.quiet rfl rfl rfl
theorem queueOrigin_works (mixed : t.peerOnly = false) (now : Nat) (range : PieceRange) :
    Works t (t.queueOrigin now range) := by
  simp only [queueOrigin,mixed,Bool.false_eq_true,if_false]
  exact ((openLane_works t now _).trans (extendQueue_works _ _ _ _)).trans (issue_works _ _ _)
theorem takeAssignment_works (now : Nat) (t : Transfer) (assignment : Assignment) :
    Works t (takeAssignment now t assignment) :=
  ((openLane_works t now _).trans (extendQueue_works _ _ _ _)).trans (issue_works _ _ _)
theorem moveAssignment_works (now : Nat) (t : Transfer) (assignment : Assignment) :
    Works t (moveAssignment now t assignment) := by
  unfold moveAssignment
  split
  · exact Works.refl t
  · exact (extendQueue_works _ _ _ _).trans (issue_works _ _ _)
theorem cancelSource_works (t : Transfer) (source : Source) : Works t (t.cancelSource source) := by
  cases source with
  | origin => exact Works.refl t
  | peer p => exact push_works t rfl
theorem endProbe_works (t : Transfer) (source : Source) : Works t (t.endProbe source) := Works.quiet rfl rfl rfl
theorem retire_works (t : Transfer) (source : Source) : Works t (t.retire source).1 := by
  unfold retire
  split
  · exact Works.refl t
  · exact Works.quiet rfl rfl rfl
theorem pend_works (t : Transfer) (index : Nat) : Works t (t.pend index) := by
  unfold pend
  split_ifs
  · exact Works.quiet rfl rfl rfl
  · exact Works.refl t
theorem measure_works (t : Transfer) (now : Nat) (source : Source) (sent : Nat) (first : Option Nat) (bytes : Nat) :
    Works t (t.measure now source sent first bytes) := by
  unfold measure
  split
  · exact Works.refl t
  · split_ifs
    · exact Works.refl t
    · exact Works.quiet rfl rfl rfl
theorem assignMany_works (t : Transfer) (now : Nat) (needed : List Nat) :
    Works t (assign.assignMany t now needed) :=
  Works.trans (Works.quiet rfl rfl rfl : Works t (t.recordPlan (t.assignPlan now needed)))
    (Works.foldl (takeAssignment_works now) _ _)

theorem assign_mixed (mixed : t.peerOnly = false) (now : Nat) (needed : List Nat) :
    t.assign now needed = t ∧ (needed = [] ∨ t.finished = true) ∨
    (∃ index, needed = [index] ∧ t.finished = false ∧ t.assign now needed = t.queueOrigin now ⟨index,index+1⟩) ∨
    needed ≠ [] ∧ t.finished = false ∧ t.assign now needed = assign.assignMany t now needed := by
  unfold assign
  rw [if_neg (by simp [mixed])]
  by_cases concluded : needed = [] ∨ t.finished = true
  · rw [if_pos concluded]; exact .inl ⟨rfl,concluded⟩
  · obtain ⟨some,running⟩ := not_or.mp concluded
    have isOpen : t.finished = false := by simpa using running
    rw [if_neg concluded]
    split
    · rename_i index
      split_ifs
      · exact .inr (.inl ⟨index,rfl,isOpen,rfl⟩)
      · exact .inr (.inr ⟨some,isOpen,rfl⟩)
    · exact .inr (.inr ⟨some,isOpen,rfl⟩)
theorem assign_works (mixed : t.peerOnly = false) (now : Nat) (needed : List Nat) :
    Works t (t.assign now needed) := by
  rcases assign_mixed mixed now needed with ⟨same,_⟩ | ⟨index,_,_,same⟩ | ⟨_,_,same⟩
  · rw [same]; exact Works.refl t
  · rw [same]; exact queueOrigin_works mixed now _
  · rw [same]; exact assignMany_works t now needed

theorem claimOrigin_works (t : Transfer) (claimed : List Nat) : Works t (t.claimOrigin claimed) :=
  Works.quiet rfl rfl rfl
/-- A plan to move pieces splits pieces that origin owes and no live peer holds
    across spare peers. -/
theorem movedPlan_split {now : Nat} {origin : Lane} {planned : Plan}
    (moved : t.movedPlan now origin = some planned) :
    ∃ input peers, planned = split input peers ∧ peers ≠ [] ∧
      (∀ p ∈ peers, ∃ entry ∈ t.livePeers, t.spare entry.2 ∧ p.source = entry.2.estimate.source) ∧
      ∀ i ∈ input.needed, i ∈ t.owed origin ∧ ∀ entry ∈ t.livePeers, ¬ entry.2.holds i := by
  unfold movedPlan at moved
  dsimp only at moved
  split_ifs at moved with noWork
  cases moved
  refine ⟨_,_,rfl,?_,?_,?_⟩
  · simpa [resolve] using (not_or.mp noWork).2
  · intro p member
    obtain ⟨estimate,listed,same⟩ := List.mem_map.mp member
    obtain ⟨entry,live,equal⟩ := List.mem_map.mp listed
    have kept := List.mem_filter.mp live
    exact ⟨entry,kept.1,by simpa using kept.2,by simp [← same,equal]⟩
  · intro i member
    have kept := List.mem_filter.mp (List.mem_of_mem_drop member)
    exact ⟨kept.1,by simpa using kept.2⟩
theorem rebalanceOrigin_cases (t : Transfer) (now : Nat) :
    t.rebalanceOrigin now = t ∨ ∃ origin planned, t.finished = false ∧ t.floorReached = false ∧
      t.lanes.get? .origin = some origin ∧ t.movedPlan now origin = some planned ∧
      t.rebalanceOrigin now = planned.assignments.foldl (moveAssignment now)
        (if t.exclusiveOrigin then t.claimOrigin (dealt planned.assignments) else t) := by
  unfold rebalanceOrigin
  by_cases concluded : t.finished = true ∨ t.floorReached = true
  · exact .inl (if_pos concluded)
  · rw [if_neg concluded]
    obtain ⟨running,early⟩ := not_or.mp concluded
    cases found : t.lanes.get? .origin with
    | none => exact .inl rfl
    | some origin =>
      cases moved : t.movedPlan now origin with
      | none => exact .inl (by simp only [moved])
      | some planned =>
        exact .inr ⟨origin,planned,by simpa using running,by simpa using early,rfl,moved,by simp only [moved]⟩
theorem rebalanceOrigin_works (t : Transfer) (now : Nat) : Works t (t.rebalanceOrigin now) := by
  rcases rebalanceOrigin_cases t now with same | ⟨origin,planned,_,_,_,_,same⟩
  · rw [same]; exact Works.refl t
  · rw [same]
    refine Works.trans ?_ (Works.foldl (moveAssignment_works now) _ _)
    split_ifs
    · exact claimOrigin_works t _
    · exact Works.refl t
theorem verified_same (same : t'.verified = t.verified) : t'.isVerified i = t.isVerified i := by
  simp only [isVerified,same]
theorem all_verified (complete : t.verified.all id = true) (inside : i < t.verified.length) :
    t.isVerified i = true := by
  have each := List.all_eq_true.mp complete _ (List.getElem_mem inside)
  simpa [isVerified,List.getElem?_eq_getElem inside] using each
theorem missing_of_all (incomplete : t.verified.all id = false) :
    ∃ i < t.verified.length, t.isVerified i = false := by
  by_contra all
  have whole : t.verified.all id = true := by
    refine List.all_eq_true.mpr (fun b member => ?_)
    obtain ⟨i,inside,rfl⟩ := List.mem_iff_getElem.mp member
    by_contra fresh
    exact all ⟨i,inside,by simpa [isVerified,List.getElem?_eq_getElem inside] using fresh⟩
  rw [whole] at incomplete
  cases incomplete

/-! ### Checking a response -/

section
variable (sha256 : List UInt8 → Digest) (bytes : List UInt8) (start : Nat)

theorem isVerified_set (t : Transfer) (i j : Nat) (data : List UInt8) (inside : i < t.verified.length) :
    Transfer.isVerified { t with data := data, verified := t.verified.set i true } j =
      if j = i then true else t.isVerified j := by
  unfold isVerified
  dsimp only
  rw [List.getD_eq_getElem?_getD,List.getElem?_set,List.getD_eq_getElem?_getD]
  by_cases same : i = j
  · subst same; simp [inside]
  · simp [same,Ne.symm same]
/-- What the check of one piece does: nothing, because it is verified; the piece
    is written; or the response is bad. -/
theorem checkPiece_cases (c : Checked) (i : Nat) :
    (c.transfer.isVerified i = true ∧ checkPiece sha256 bytes start c i = c) ∨
    (c.transfer.isVerified i = false ∧
      c.transfer.hashes[i]? = some (sha256 ((bytes.drop ((c.transfer.pieceRangeBytes ⟨i,i+1⟩).1 - start)).take
        ((c.transfer.pieceRangeBytes ⟨i,i+1⟩).2 - (c.transfer.pieceRangeBytes ⟨i,i+1⟩).1))) ∧
      checkPiece sha256 bytes start c i = ⟨{ c.transfer with
        data := c.transfer.data.take (c.transfer.pieceRangeBytes ⟨i,i+1⟩).1 ++
          (bytes.drop ((c.transfer.pieceRangeBytes ⟨i,i+1⟩).1 - start)).take
            ((c.transfer.pieceRangeBytes ⟨i,i+1⟩).2 - (c.transfer.pieceRangeBytes ⟨i,i+1⟩).1) ++
          c.transfer.data.drop (c.transfer.pieceRangeBytes ⟨i,i+1⟩).2
        verified := c.transfer.verified.set i true },c.bad,true⟩) ∨
    (c.transfer.isVerified i = false ∧ checkPiece sha256 bytes start c i = { c with bad := true }) := by
  unfold checkPiece
  by_cases done : c.transfer.isVerified i = true
  · exact .inl ⟨done,by dsimp only; rw [if_pos done]⟩
  · have fresh : c.transfer.isVerified i = false := by simpa using done
    dsimp only
    rw [if_neg done]
    split_ifs with good
    · exact .inr (.inl ⟨fresh,good,rfl⟩)
    · exact .inr (.inr ⟨fresh,rfl⟩)

theorem checkPieces_frame (pieces : List Nat) : ∀ c : Checked,
    (pieces.foldl (checkPiece sha256 bytes start) c).transfer = { c.transfer with
      data := (pieces.foldl (checkPiece sha256 bytes start) c).transfer.data
      verified := (pieces.foldl (checkPiece sha256 bytes start) c).transfer.verified } ∧
    (pieces.foldl (checkPiece sha256 bytes start) c).transfer.verified.length = c.transfer.verified.length := by
  induction pieces with
  | nil => intro c; exact ⟨rfl,rfl⟩
  | cons i rest ih =>
    intro c
    obtain ⟨same,length⟩ := ih (checkPiece sha256 bytes start c i)
    have one : checkPiece sha256 bytes start c i = ⟨{ c.transfer with
        data := (checkPiece sha256 bytes start c i).transfer.data
        verified := (checkPiece sha256 bytes start c i).transfer.verified },
        (checkPiece sha256 bytes start c i).bad,(checkPiece sha256 bytes start c i).fresh⟩ ∧
        (checkPiece sha256 bytes start c i).transfer.verified.length = c.transfer.verified.length := by
      rcases checkPiece_cases sha256 bytes start c i with ⟨_,equal⟩ | ⟨_,_,equal⟩ | ⟨_,equal⟩
      all_goals rw [equal]; simp
    rw [List.foldl_cons]
    exact ⟨by rw [same,one.1],length.trans one.2⟩
/-- What the check of a response finds: without a bad piece every checked piece is
    verified, and a bad piece is not. -/
structure Checks (pieces : List Nat) (c c' : Checked) : Prop where
  grows : ∀ i, c.transfer.isVerified i = true → c'.transfer.isVerified i = true
  others : ∀ i, i ∉ pieces → c'.transfer.isVerified i = c.transfer.isVerified i
  good : c'.bad = false → c.bad = false ∧ ∀ i ∈ pieces, c'.transfer.isVerified i = true
  bad : c'.bad = true → c.bad = true ∨ ∃ i ∈ pieces, c'.transfer.isVerified i = false

theorem checkPiece_checks (c : Checked) (inside : i < c.transfer.verified.length) :
    Checks [i] c (checkPiece sha256 bytes start c i) := by
  rcases checkPiece_cases sha256 bytes start c i with ⟨done,same⟩ | ⟨fresh,_,same⟩ | ⟨fresh,same⟩
  · rw [same]
    exact ⟨fun _ h => h,fun _ _ => rfl,fun good => ⟨good,by simpa using done⟩,.inl⟩
  · rw [same]
    refine ⟨?_,?_,?_,.inl⟩
    · intro j old
      rw [isVerified_set _ _ _ _ inside]
      split_ifs
      · rfl
      · exact old
    · intro j other
      rw [isVerified_set _ _ _ _ inside,if_neg (by simpa using other)]
    · intro good
      refine ⟨good,fun j member => ?_⟩
      rw [isVerified_set _ _ _ _ inside,if_pos (by simpa using member)]
  · rw [same]
    exact ⟨fun _ h => h,fun _ _ => rfl,by simp,fun _ => .inr ⟨i,by simp,fresh⟩⟩
theorem checkPieces_checks (pieces : List Nat) : ∀ c : Checked, pieces.Nodup →
    (∀ i ∈ pieces, i < c.transfer.verified.length) →
      Checks pieces c (pieces.foldl (checkPiece sha256 bytes start) c) := by
  induction pieces with
  | nil =>
    intro c _ _
    exact ⟨fun _ h => h,fun _ _ => rfl,fun good => ⟨good,by simp⟩,.inl⟩
  | cons i rest ih =>
    intro c distinct inside
    obtain ⟨apart,others⟩ := List.nodup_cons.mp distinct
    have one := checkPiece_checks sha256 bytes start c (inside i (by simp))
    have later := ih (checkPiece sha256 bytes start c i) others (fun j member => by
      have length : (checkPiece sha256 bytes start c i).transfer.verified.length = c.transfer.verified.length :=
        (checkPieces_frame sha256 bytes start [i] c).2
      rw [length]
      exact inside j (by simp [member]))
    have kept := later.others i apart
    refine ⟨fun j old => later.grows j (one.grows j old),?_,?_,?_⟩
    · intro j absent
      rw [List.foldl_cons,later.others j (fun member => absent (by simp [member])),
        one.others j (fun member => absent (by simp_all))]
    · intro good
      obtain ⟨before,tail⟩ := later.good good
      obtain ⟨first,head⟩ := one.good before
      refine ⟨first,fun j member => ?_⟩
      rcases List.mem_cons.mp member with rfl | listed
      · exact later.grows j (head j (by simp))
      · exact tail j listed
    · intro bad
      rcases later.bad bad with early | ⟨j,member,wrong⟩
      · rcases one.bad early with first | ⟨j,member,wrong⟩
        · exact .inl first
        · rw [List.mem_singleton] at member
          subst member
          exact .inr ⟨j,by simp,kept.trans wrong⟩
      · exact .inr ⟨j,by simp [member],wrong⟩

end

end Transfer
end RelaySwarm.Transfers
