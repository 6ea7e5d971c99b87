import RelaySwarm.PublisherStore

/-!
Every run of the calls on one state path keeps one identity. What the path names is
written before it is linked and is never replaced, and each call returns what it reads
there (`Kept`). A call alone comes to its end in a bounded number of operations, as long
as no other ended between its link and its unlink and no state is too long to be read
(`one_identity`).
-/
namespace RelaySwarm.Publisher
open JsonText

/-! ### What one operation does to the directory -/

/-- Only the inode and the temporary name of the call change, and what the path names
    stays. -/
structure Does (call : Nat) (disk after : Disk) : Prop where
  inodes : ∀ other, other ≠ call → after.inodes other = disk.inodes other
  temporary : ∀ other, other ≠ call → after.temporary other = disk.temporary other
  file : after.file = disk.file ∨ (disk.file = none ∧ after.file = some call)
  own : disk.file = some call → (after.inodes call).content = (disk.inodes call).content ∧
    (after.inodes call).mode = (disk.inodes call).mode
structure Onward (disk after : Disk) : Prop where
  file : ∀ ino, disk.file = some ino → after.file = some ino
  content : ∀ ino, disk.file = some ino → (after.inodes ino).content = (disk.inodes ino).content
  mode : ∀ ino, disk.file = some ino → (after.inodes ino).mode = (disk.inodes ino).mode
theorem Onward.refl (disk : Disk) : Onward disk disk := ⟨fun _ => id,fun _ _ => rfl,fun _ _ => rfl⟩
theorem Onward.trans {a b c : Disk} (first : Onward a b) (second : Onward b c) : Onward a c := by
  refine ⟨fun ino held => second.file ino (first.file ino held),fun ino held => ?_,fun ino held => ?_⟩
  · rw [second.content ino (first.file ino held),first.content ino held]
  · rw [second.mode ino (first.file ino held),first.mode ino held]
theorem Does.onward {call : Nat} {disk after : Disk} (does : Does call disk after) : Onward disk after := by
  have same : ∀ ino, disk.file = some ino → (after.inodes ino).content = (disk.inodes ino).content ∧
      (after.inodes ino).mode = (disk.inodes ino).mode := by
    intro ino held
    by_cases own : ino = call
    · rw [own] at held ⊢
      exact does.own held
    · rw [does.inodes ino own]
      exact ⟨rfl,rfl⟩
  refine ⟨fun ino held => ?_,fun ino held => (same ino held).1,fun ino held => (same ino held).2⟩
  rcases does.file with kept | ⟨absent,_⟩
  · rw [kept]
    exact held
  · rw [absent] at held
    cases held
theorem Onward.named {disk after : Disk} (onward : Onward disk after) (linked : disk.file ≠ none) :
    after.file ≠ none := by
  intro absent
  cases held : disk.file with
  | none => exact linked held
  | some ino =>
    rw [onward.file ino held] at absent
    cases absent
theorem does_nothing (call : Nat) (disk : Disk) : Does call disk disk :=
  ⟨fun _ _ => rfl,fun _ _ => rfl,.inl rfl,fun _ => ⟨rfl,rfl⟩⟩

section
variable (crypto : Crypto) (options : Options)

/-! ### What holds of a call -/

/-- An identity that some call drew. -/
def Fresh (identity : Identity) : Prop := ∃ choice : Choice,
  identity = newIdentity crypto options choice.secretKey choice.seconds
/-- The identity that the path names. -/
def Disk.identity (disk : Disk) : Option Identity :=
  disk.file.bind (fun ino => (decodeState crypto options (utf8 (disk.inodes ino).content)).toOption)
/-- The call has put nothing in the directory. -/
def Unborn (disk : Disk) (call : Nat) : Prop := disk.file ≠ some call ∧ disk.temporary call = false
/-- A reading follows what the path names. -/
def Reads (disk : Disk) : Reading → Prop
  | .opening => True
  | .opened ino => disk.file = some ino
  | .loading ino _ bytes => disk.file = some ino ∧ bytes <+: (disk.inodes ino).content
  | .loaded ino _ bytes => disk.file = some ino ∧ bytes <+: (disk.inodes ino).content ∧
      (bytes = (disk.inodes ino).content ∨ maxStateBytes < bytes.length)
  | .checked _ _ bytes => ∃ ino, disk.file = some ino ∧
      (bytes = (disk.inodes ino).content ∨ maxStateBytes < bytes.length)
  | .closing result => ∀ identity, result = .ok identity → disk.identity crypto options = some identity
/-- How far the publication of an identity has come in the directory. -/
def Stands (disk : Disk) (call : Nat) (identity : Identity) : Making → Prop
  | .chmod => disk.file ≠ some call ∧ disk.temporary call = true ∧ (disk.inodes call).content = []
  | .write rest => disk.file ≠ some call ∧ disk.temporary call = true ∧
      (disk.inodes call).content ++ rest = stateBytes options identity ∧ (disk.inodes call).mode = privateMode
  | .sync => disk.file ≠ some call ∧ disk.temporary call = true ∧
      (disk.inodes call).content = stateBytes options identity ∧ (disk.inodes call).mode = privateMode
  | .close => disk.file ≠ some call ∧ disk.temporary call = true ∧
      (disk.inodes call).content = stateBytes options identity ∧ (disk.inodes call).mode = privateMode
  | .link => disk.file ≠ some call ∧ disk.temporary call = true ∧
      (disk.inodes call).content = stateBytes options identity ∧ (disk.inodes call).mode = privateMode
  | .unlink linked => disk.temporary call = true ∧ disk.file ≠ none ∧ (disk.file = some call ↔ linked = true)
  | .openDirectory => disk.file ≠ none
  | .syncDirectory => disk.file ≠ none
  | .closeDirectory => disk.file ≠ none
def Holds (disk : Disk) (call : Nat) : Phase → Prop
  | .reading own _ step =>
    (own = true → disk.file ≠ none) ∧ (own = false → Unborn disk call) ∧ Reads crypto options disk step
  | .waiting own _ => (own = true → disk.file ≠ none) ∧ (own = false → Unborn disk call)
  | .generating => Unborn disk call
  | .making identity step => Fresh crypto options identity ∧ Stands options disk call identity step
  | .returned identity => disk.identity crypto options = some identity
  | .thrown _ => True
  | .crashed => True
/-- What the path names is a whole state of a drawn identity. -/
def Whole (disk : Disk) : Prop := ∀ ino, disk.file = some ino → ∃ identity, Fresh crypto options identity ∧
  (disk.inodes ino).content = stateBytes options identity ∧ (disk.inodes ino).mode = privateMode
structure Kept (s : System) : Prop where
  whole : Whole crypto options s.disk
  unborn : ∀ call, s.calls call = none → Unborn s.disk call
  holds : ∀ call phase, s.calls call = some phase → Holds crypto options s.disk call phase
end

section
variable {crypto : Crypto} {options : Options} {disk after : Disk} {call : Nat}

theorem Onward.identity (onward : Onward disk after) {identity : Identity}
    (held : disk.identity crypto options = some identity) : after.identity crypto options = some identity := by
  unfold Disk.identity at held ⊢
  cases named : disk.file with
  | none =>
    rw [named] at held
    cases held
  | some ino =>
    rw [named] at held
    rw [onward.file ino named,Option.bind_some,onward.content ino named]
    exact held
theorem Onward.reads (onward : Onward disk after) {step : Reading} (reads : Reads crypto options disk step) :
    Reads crypto options after step := by
  cases step with
  | opening => trivial
  | opened ino => exact onward.file ino reads
  | loading ino before bytes =>
    obtain ⟨held,part⟩ := reads
    exact ⟨onward.file ino held,by rw [onward.content ino held]; exact part⟩
  | loaded ino before bytes =>
    obtain ⟨held,part,all⟩ := reads
    refine ⟨onward.file ino held,?_,?_⟩
    · rw [onward.content ino held]; exact part
    · rw [onward.content ino held]; exact all
  | checked before after' bytes =>
    obtain ⟨ino,held,all⟩ := reads
    refine ⟨ino,onward.file ino held,?_⟩
    rw [onward.content ino held]
    exact all
  | closing result => exact fun identity same => onward.identity (reads identity same)
theorem Does.aside (does : Does call disk after) {other : Nat} (apart : other ≠ call) {phase : Phase}
    (holds : Holds crypto options disk other phase) : Holds crypto options after other phase := by
  have onward := does.onward
  have inode := does.inodes other apart
  have temporary := does.temporary other apart
  have named : after.file = some other ↔ disk.file = some other := by
    rcases does.file with same | ⟨absent,linked⟩
    · rw [same]
    · rw [absent,linked]
      exact ⟨fun same => absurd (Option.some.inj same).symm apart,fun same => by cases same⟩
  have unborn : Unborn disk other → Unborn after other := fun held =>
    ⟨fun linked => held.1 (named.mp linked),by rw [temporary]; exact held.2⟩
  cases phase with
  | reading own attempt step =>
    obtain ⟨some,none,reads⟩ := holds
    exact ⟨fun own' => onward.named (some own'),fun own' => unborn (none own'),onward.reads reads⟩
  | waiting own attempt =>
    obtain ⟨some,none⟩ := holds
    exact ⟨fun own' => onward.named (some own'),fun own' => unborn (none own')⟩
  | generating => exact unborn holds
  | making identity step =>
    obtain ⟨fresh,stands⟩ := holds
    refine ⟨fresh,?_⟩
    cases step with
    | unlink linked =>
      obtain ⟨held,some,link⟩ := stands
      exact ⟨by rw [temporary]; exact held,onward.named some,named.trans link⟩
    | openDirectory => exact onward.named stands
    | syncDirectory => exact onward.named stands
    | closeDirectory => exact onward.named stands
    | _ =>
      simp only [Stands,inode,temporary,ne_eq,named] at stands ⊢
      exact stands
  | returned identity => exact onward.identity holds
  | thrown failure => trivial
  | crashed => trivial

/-! ### A call's own operation -/

theorem settled_holds {own : Bool} {attempt : Nat} {result : Except Failure Identity}
    (named : own = true → disk.file ≠ none)
    (unborn : own = false → Unborn disk call) (reads : Reads crypto options disk (.closing result)) :
    Holds crypto options disk call (settled own attempt result) := by
  cases result with
  | ok identity => exact reads identity rfl
  | error failure =>
    unfold settled
    dsimp only
    split_ifs with again own' absent
    · exact ⟨named,unborn⟩
    · trivial
    · exact unborn (by simpa using own')
    · trivial
/-- What one read adds is the next of the content, and when it adds nothing there is no
    more, or there is too much. -/
theorem read_more {content bytes : List UInt8} (part : bytes <+: content) (count : Nat) :
    bytes ++ (content.drop bytes.length).take (min (count + 1) (maxStateBytes + 1 - bytes.length)) <+: content ∧
      ((content.drop bytes.length).take (min (count + 1) (maxStateBytes + 1 - bytes.length)) = [] →
        bytes = content ∨ maxStateBytes < bytes.length) := by
  obtain ⟨rest,rfl⟩ := part
  rw [List.drop_left]
  refine ⟨?_,fun none => ?_⟩
  · rw [List.prefix_append_right_inj]
    exact List.take_prefix _ _
  · rcases List.take_eq_nil_iff.mp none with zero | empty
    · right
      omega
    · left
      rw [empty,List.append_nil]
theorem reading_holds {own : Bool} {attempt : Nat} {step : Reading} (count : Nat)
    (holds : Holds crypto options disk call (.reading own attempt step)) :
    Holds crypto options disk call (step.next crypto options disk count own attempt) := by
  obtain ⟨named,unborn,reads⟩ := holds
  have failed : ∀ failure :
      Failure, Holds crypto options disk call (.reading own attempt (.closing (.error failure))) :=
    fun failure => ⟨named,unborn,fun identity same => by cases same⟩
  cases step with
  | opening =>
    unfold Reading.next
    dsimp only
    cases held : disk.file with
    | none => exact settled_holds named unborn (fun identity same => by cases same)
    | some ino => exact ⟨named,unborn,held⟩
  | opened ino =>
    unfold Reading.next
    dsimp only
    cases privateFile (disk.stat ino) with
    | error failure => exact failed failure
    | ok _ => exact ⟨named,unborn,reads,List.nil_prefix⟩
  | loading ino before bytes =>
    obtain ⟨held,part⟩ := reads
    obtain ⟨more,ended⟩ := read_more part count
    unfold Reading.next
    dsimp only
    split_ifs with none
    · exact ⟨named,unborn,held,part,ended none⟩
    · exact ⟨named,unborn,held,more⟩
  | loaded ino before bytes =>
    unfold Reading.next
    dsimp only
    cases privateFile (disk.stat ino) with
    | error failure => exact failed failure
    | ok _ => exact ⟨named,unborn,ino,reads.1,reads.2.2⟩
  | checked before after' bytes =>
    obtain ⟨ino,held,all⟩ := reads
    unfold Reading.next
    dsimp only
    rw [held]
    dsimp only
    split_ifs with changed
    · exact failed .changed
    · refine ⟨named,unborn,fun identity same => ?_⟩
      have whole : bytes = (disk.inodes ino).content := all.resolve_right fun long => changed (.inl long)
      unfold Disk.identity
      rw [held,Option.bind_some,← whole,same]
      rfl
  | closing result => exact settled_holds named unborn reads

theorem put_does (inode : Inode) (unlinked : disk.file ≠ some call) : Does call disk (disk.put call inode) :=
  ⟨fun _ apart => Function.update_of_ne apart _ _,fun _ _ => rfl,.inl rfl,fun held => absurd held unlinked⟩
theorem touch_inode (disk : Disk) (call : Nat) : ((disk.touch call).inodes call).content = (disk.inodes call).content ∧
    ((disk.touch call).inodes call).mode = (disk.inodes call).mode := by
  simp [Disk.touch,Disk.put]
theorem making_holds {identity : Identity} {step : Making} (count : Nat)
    (holds : Holds crypto options disk call (.making identity step)) :
    Does call disk (step.next options call count identity disk).1 ∧
      Holds crypto options (step.next options call count identity disk).1 call
        (step.next options call count identity disk).2 := by
  obtain ⟨fresh,stands⟩ := holds
  cases step with
  | chmod =>
    obtain ⟨unlinked,held,empty⟩ := stands
    refine ⟨put_does _ unlinked,fresh,unlinked,held,?_,?_⟩
    · simp [Making.next,Disk.put,empty]
    · simp [Making.next,Disk.put]
  | write rest =>
    obtain ⟨unlinked,held,content,mode⟩ := stands
    unfold Making.next
    dsimp only
    split_ifs with none
    · rw [none,List.append_nil] at content
      exact ⟨does_nothing _ _,fresh,unlinked,held,content,mode⟩
    · refine ⟨put_does _ unlinked,fresh,unlinked,held,?_,?_⟩
      · simp [Disk.put,content]
      · simp [Disk.put,mode]
  | sync => exact ⟨does_nothing _ _,fresh,stands⟩
  | close => exact ⟨does_nothing _ _,fresh,stands⟩
  | link =>
    obtain ⟨unlinked,held,content,mode⟩ := stands
    unfold Making.next
    dsimp only
    cases named : disk.file with
    | some ino =>
      refine ⟨does_nothing _ _,fresh,held,by simp [named],?_⟩
      exact ⟨fun own => absurd own unlinked,fun linked => by cases linked⟩
    | none =>
      refine ⟨⟨fun _ apart => Function.update_of_ne apart _ _,fun _ _ => rfl,.inr ⟨named,rfl⟩,fun own => ?_⟩,
        fresh,held,?_,?_⟩
      · rw [named] at own
        cases own
      · simp [Disk.touch,Disk.put]
      · simp [Disk.touch,Disk.put]
  | unlink linked =>
    obtain ⟨held,named,link⟩ := stands
    refine ⟨⟨fun _ apart => ?_,fun _ apart => ?_,.inl rfl,fun _ => ?_⟩,fresh,named⟩
    · simp [Making.next,Disk.touch,Disk.put,apart]
    · simp [Making.next,Disk.touch,Disk.put,apart]
    · exact touch_inode _ _
  | openDirectory => exact ⟨does_nothing _ _,fresh,stands⟩
  | syncDirectory => exact ⟨does_nothing _ _,fresh,stands⟩
  | closeDirectory => exact ⟨does_nothing _ _,fun _ => stands,fun own => (by cases own),trivial⟩
theorem next_holds {phase : Phase} (choice : Choice) (holds : Holds crypto options disk call phase) :
    Does call disk (phase.next crypto options call choice disk).1 ∧
      Holds crypto options (phase.next crypto options call choice disk).1 call
        (phase.next crypto options call choice disk).2 := by
  cases phase with
  | reading own attempt step => exact ⟨does_nothing _ _,reading_holds choice.count holds⟩
  | waiting own attempt => exact ⟨does_nothing _ _,holds.1,holds.2,trivial⟩
  | generating =>
    obtain ⟨unlinked,bare⟩ := holds
    refine ⟨⟨fun other apart => Function.update_of_ne apart _ _,
      fun other apart => Function.update_of_ne apart _ _,.inl rfl,
      fun own => absurd own unlinked⟩,⟨choice,rfl⟩,unlinked,?_,?_⟩
    · simp [Phase.next,Disk.put]
    · simp [Phase.next,Disk.put]
  | making identity step => exact making_holds choice.count holds
  | returned identity => exact ⟨does_nothing _ _,holds⟩
  | thrown failure => exact ⟨does_nothing _ _,trivial⟩
  | crashed => exact ⟨does_nothing _ _,trivial⟩
theorem next_links {phase : Phase} (choice : Choice) (absent : disk.file = none)
    (linked : (phase.next crypto options call choice disk).1.file = some call) : ∃ identity,
    phase = .making identity .link := by
  cases phase with
  | making identity step =>
    cases step with
    | link => exact ⟨identity,rfl⟩
    | write rest =>
      simp only [Phase.next,Making.next] at linked
      split at linked
      · rw [absent] at linked
        cases linked
      · change disk.file = some call at linked
        rw [absent] at linked
        cases linked
    | _ =>
      change disk.file = some call at linked
      rw [absent] at linked
      cases linked
  | _ =>
    change disk.file = some call at linked
    rw [absent] at linked
    cases linked
theorem next_whole {phase : Phase} (choice : Choice) (holds : Holds crypto options disk call phase)
    (whole : Whole crypto options disk) : Whole crypto options (phase.next crypto options call choice disk).1 := by
  obtain ⟨does,_⟩ := next_holds choice holds
  have onward := does.onward
  intro ino named
  rcases does.file with same | ⟨absent,linked⟩
  · rw [same] at named
    obtain ⟨identity,fresh,content,mode⟩ := whole ino named
    exact ⟨identity,fresh,(onward.content ino named).trans content,(onward.mode ino named).trans mode⟩
  · obtain ⟨identity,rfl⟩ := next_links choice absent linked
    obtain ⟨fresh,_,_,content,mode⟩ := holds
    rw [linked] at named
    cases named
    have after : (Phase.next crypto options call choice disk (.making identity .link)).1 =
        { disk with file := some call }.touch call := by
      simp only [Phase.next,Making.next,absent]
    obtain ⟨same,same'⟩ := touch_inode { disk with file := some call } call
    rw [after]
    exact ⟨identity,fresh,same.trans content,same'.trans mode⟩

/-! ### Runs -/

variable {s : System}

theorem tick_holds {other : Nat} {phase : Phase} {now : Nat} (holds : Holds crypto options disk other phase) :
    Holds crypto options { disk with now := now } other phase := by
  cases phase with
  | reading own attempt step => cases step <;> exact holds
  | making identity step => cases step <;> exact holds
  | _ => exact holds
theorem Kept.set {phase : Phase} (kept : Kept crypto options s) (holds : Holds crypto options s.disk call phase) :
    Kept crypto options { s with calls := Function.update s.calls call (some phase) } := by
  refine ⟨kept.whole,fun other none => ?_,fun other phase' held => ?_⟩
  · by_cases own : other = call
    · rw [own] at none
      simp at none
    · simp only [Function.update_of_ne own] at none
      exact kept.unborn other none
  · by_cases own : other = call
    · subst own
      simp only [Function.update_self,Option.some.injEq] at held
      rw [← held]
      exact holds
    · simp only [Function.update_of_ne own] at held
      exact kept.holds other phase' held
theorem step_kept (step : Step) (kept : Kept crypto options s) : Kept crypto options (s.step crypto options step) ∧
    Onward s.disk (s.step crypto options step).disk := by
  cases step with
  | begin call =>
    unfold System.step
    dsimp only
    split_ifs with known
    · exact ⟨kept,.refl _⟩
    · have fresh : s.calls call = none := by simpa using known
      exact ⟨kept.set ⟨fun own => (by cases own),fun _ => kept.unborn call fresh,trivial⟩,.refl _⟩
  | go call choice =>
    unfold System.step
    dsimp only
    cases held : s.calls call with
    | none => exact ⟨kept,.refl _⟩
    | some phase =>
      dsimp only
      have holds := kept.holds call phase held
      obtain ⟨does,holds'⟩ := next_holds choice holds
      have onward := does.onward
      refine ⟨⟨next_whole choice holds kept.whole,fun other none => ?_,fun other phase' held' => ?_⟩,onward⟩
      · by_cases own : other = call
        · rw [own] at none
          simp at none
        · simp only [Function.update_of_ne own] at none
          have before : Holds crypto options s.disk other .generating := kept.unborn other none
          exact does.aside own before
      · by_cases own : other = call
        · subst own
          simp only [Function.update_self,Option.some.injEq] at held'
          rw [← held']
          exact holds'
        · simp only [Function.update_of_ne own] at held'
          exact does.aside own (kept.holds other phase' held')
  | crash call =>
    unfold System.step
    dsimp only
    cases held : s.calls call with
    | none => exact ⟨kept,.refl _⟩
    | some phase =>
      dsimp only
      split_ifs
      · exact ⟨kept,.refl _⟩
      · exact ⟨kept.set trivial,.refl _⟩
  | tick ms =>
    refine ⟨⟨kept.whole,kept.unborn,fun other phase held => tick_holds (kept.holds other phase held)⟩,?_⟩
    exact ⟨fun _ => id,fun _ _ => rfl,fun _ _ => rfl⟩
theorem run_kept (steps : List Step) : ∀ {s : System}, Kept crypto options s →
    Kept crypto options (s.run crypto options steps) ∧
    Onward s.disk (s.run crypto options steps).disk := by
  induction steps with
  | nil => intro s kept; exact ⟨kept,.refl _⟩
  | cons step rest ih =>
    intro s kept
    obtain ⟨kept',onward⟩ := step_kept step kept
    obtain ⟨kept'',onward'⟩ := ih kept'
    exact ⟨kept'',onward.trans onward'⟩
theorem start_kept (now : Nat) : Kept crypto options (System.start now) :=
  ⟨fun ino named => (by cases named),fun call _ => ⟨fun named => (by cases named),rfl⟩,
    fun call phase held => (by cases held)⟩
end

/-! ### Runs without a loose end -/

section
variable (crypto : Crypto) (options : Options)

/-- No call ends between its link and its unlink, and no state is drawn that is too long
    to be read. -/
def System.safe (s : System) : Step → Prop
  | .crash call => ∀ identity, s.calls call ≠ some (.making identity (.unlink true))
  | .go call choice => s.calls call = some .generating →
      (stateBytes options (newIdentity crypto options choice.secretKey choice.seconds)).length ≤ maxStateBytes
  | _ => True
def SafeRun : System → List Step → Prop
  | _,[] => True
  | s,step :: rest => s.safe crypto options step ∧ SafeRun (s.step crypto options step) rest
/-- The state's temporary name is gone but for the call that is about to remove it, and
    the state can be read. -/
structure Tidy (s : System) : Prop where
  linked : ∀ ino, s.disk.file = some ino → s.disk.temporary ino = true → ∃ identity,
    s.calls ino = some (.making identity (.unlink true))
  short : ∀ call identity step, s.calls call = some (.making identity step) →
    (stateBytes options identity).length ≤ maxStateBytes
  fits : ∀ ino, s.disk.file = some ino → (s.disk.inodes ino).content.length ≤ maxStateBytes
end

section
variable {crypto : Crypto} {options : Options} {disk after : Disk} {call : Nat} {s : System}

theorem settled_never (own : Bool) (attempt : Nat) (result : Except Failure Identity) (identity : Identity)
    (step : Making) :
    settled own attempt result ≠ .making identity step := by
  cases result with
  | ok found => exact fun same => by cases same
  | error failure =>
    unfold settled
    dsimp only
    split_ifs <;> exact fun same => by cases same
theorem reading_never (own : Bool) (attempt count : Nat) (step : Reading) (identity : Identity) (making : Making) :
    step.next crypto options disk count own attempt ≠ .making identity making := by
  cases step with
  | opening =>
    unfold Reading.next
    dsimp only
    split
    · exact settled_never _ _ _ _ _
    · exact fun same => by cases same
  | closing result => exact settled_never _ _ _ _ _
  | loading ino before bytes =>
    unfold Reading.next
    dsimp only
    split_ifs <;> exact fun same => by cases same
  | checked before after' bytes =>
    unfold Reading.next
    dsimp only
    split
    · exact fun same => by cases same
    · split_ifs <;> exact fun same => by cases same
  | _ =>
    unfold Reading.next
    dsimp only
    split <;> exact fun same => by cases same
theorem next_makes {phase : Phase} {choice : Choice} {identity : Identity} {step : Making}
    (next : (phase.next crypto options call choice disk).2 = .making identity step) :
    (phase = .generating ∧ identity = newIdentity crypto options choice.secretKey choice.seconds) ∨
      ∃ before, phase = .making identity before := by
  cases phase with
  | reading own attempt reading => exact absurd next (reading_never _ _ _ _ _ _)
  | generating =>
    cases next
    exact .inl ⟨rfl,rfl⟩
  | making found making =>
    right
    cases making with
    | write rest =>
      simp only [Phase.next,Making.next] at next
      split at next <;> (cases next; exact ⟨_,rfl⟩)
    | link =>
      simp only [Phase.next,Making.next] at next
      split at next <;> (cases next; exact ⟨_,rfl⟩)
    | closeDirectory => cases next
    | _ =>
      cases next
      exact ⟨_,rfl⟩
  | _ => cases next
/-- A temporary name that still stands behind an operation stood before it, or is new;
    and its removal is not what the operation was. -/
theorem next_temporary {phase : Phase} {choice : Choice}
    (stands : (phase.next crypto options call choice disk).1.temporary call = true) :
    phase = .generating ∨ (disk.temporary call = true ∧
      ∀ identity linked, phase ≠ .making identity (.unlink linked)) := by
  cases phase with
  | generating => exact .inl rfl
  | making identity step =>
    right
    cases step with
    | unlink linked => simp [Phase.next,Making.next,Disk.touch,Disk.put] at stands
    | write rest =>
      simp only [Phase.next,Making.next] at stands
      split at stands <;> exact ⟨stands,fun _ _ same => by cases same⟩
    | link =>
      simp only [Phase.next,Making.next] at stands
      split at stands <;> exact ⟨stands,fun _ _ same => by cases same⟩
    | _ => exact ⟨stands,fun _ _ same => by cases same⟩
  | _ => exact .inr ⟨stands,fun _ _ same => by cases same⟩
theorem go_tidy {phase : Phase} (choice : Choice) (kept : Kept crypto options s) (tidy : Tidy options s)
    (held : s.calls call = some phase) (safe : s.safe crypto options (.go call choice)) :
    Tidy options ⟨(phase.next crypto options call choice s.disk).1,
      Function.update s.calls call (some (phase.next crypto options call choice s.disk).2)⟩ := by
  have holds := kept.holds call phase held
  obtain ⟨does,_⟩ := next_holds choice holds
  have onward := does.onward
  -- What a name stands for is either named before or linked now by this call.
  have named : ∀ ino, (phase.next crypto options call choice s.disk).1.file = some ino →
      s.disk.file = some ino ∨ (ino = call ∧ s.disk.file = none ∧ ∃ identity, phase = .making identity .link) := by
    intro ino linked
    rcases does.file with same | ⟨absent,own⟩
    · exact .inl (by rw [← same]; exact linked)
    · rw [own] at linked
      cases linked
      exact .inr ⟨rfl,absent,next_links choice absent own⟩
  refine ⟨fun ino linked stands => ?_,fun other identity step making => ?_,fun ino linked => ?_⟩
  · dsimp only at linked stands ⊢
    by_cases own : ino = call
    · subst own
      rw [Function.update_self]
      rcases named ino linked with before | ⟨_,absent,identity,rfl⟩
      · exfalso
        rcases next_temporary stands with drawn | ⟨stood,other⟩
        · rw [drawn] at holds
          exact holds.1 before
        · obtain ⟨identity,unlinking⟩ := tidy.linked ino before stood
          rw [held] at unlinking
          exact other identity true (Option.some.inj unlinking)
      · refine ⟨identity,?_⟩
        simp only [Phase.next,Making.next,absent]
    · have before : s.disk.file = some ino := (named ino linked).resolve_right fun ⟨same,_⟩ => own same
      rw [does.temporary ino own] at stands
      rw [Function.update_of_ne own]
      exact tidy.linked ino before stands
  · dsimp only at making
    by_cases own : other = call
    · subst own
      rw [Function.update_self,Option.some.injEq] at making
      rcases next_makes making with ⟨rfl,rfl⟩ | ⟨before,rfl⟩
      · exact safe held
      · exact tidy.short _ _ _ held
    · rw [Function.update_of_ne own] at making
      exact tidy.short _ _ _ making
  · dsimp only at linked ⊢
    rcases named ino linked with before | ⟨rfl,absent,identity,rfl⟩
    · rw [onward.content ino before]
      exact tidy.fits ino before
    · obtain ⟨_,_,_,content,_⟩ := holds
      have after : (Phase.next crypto options ino choice s.disk (.making identity .link)).1 =
          { s.disk with file := some ino }.touch ino := by
        simp only [Phase.next,Making.next,absent]
      rw [after,(touch_inode { s.disk with file := some ino } ino).1]
      dsimp only
      rw [content]
      exact tidy.short _ _ _ held
theorem step_tidy (step : Step) (kept : Kept crypto options s) (tidy : Tidy options s)
    (safe : s.safe crypto options step) :
    Tidy options (s.step crypto options step) := by
  -- A call that is not publishing an identity can be set to any phase that is none either.
  have set : ∀ call phase, (∀ identity, s.calls call ≠ some (.making identity (.unlink true))) →
      (∀ identity step, phase ≠ .making identity step) →
      Tidy options { s with calls := Function.update s.calls call (some phase) } := by
    intro call phase idle other
    refine ⟨fun ino linked stands => ?_,fun call' identity step making => ?_,tidy.fits⟩
    · obtain ⟨identity,unlinking⟩ := tidy.linked ino linked stands
      by_cases own : ino = call
      · rw [own] at unlinking
        exact absurd unlinking (idle identity)
      · exact ⟨identity,by dsimp only; rw [Function.update_of_ne own]; exact unlinking⟩
    · dsimp only at making
      by_cases own : call' = call
      · subst own
        rw [Function.update_self,Option.some.injEq] at making
        exact absurd making (other identity step)
      · rw [Function.update_of_ne own] at making
        exact tidy.short _ _ _ making
  cases step with
  | begin call =>
    unfold System.step
    dsimp only
    split_ifs with known
    · exact tidy
    · have fresh : s.calls call = none := by simpa using known
      exact set call _ (fun identity held => by rw [fresh] at held; cases held) (fun _ _ same => by cases same)
  | go call choice =>
    unfold System.step
    dsimp only
    cases held : s.calls call with
    | none => exact tidy
    | some phase => exact go_tidy choice kept tidy held safe
  | crash call =>
    unfold System.step
    dsimp only
    cases held : s.calls call with
    | none => exact tidy
    | some phase =>
      dsimp only
      split_ifs
      · exact tidy
      · exact set call _ safe (fun _ _ same => by cases same)
  | tick ms => exact ⟨tidy.linked,tidy.short,tidy.fits⟩
theorem run_tidy (steps : List Step) : ∀ {s : System}, Kept crypto options s → Tidy options s →
    SafeRun crypto options s steps →
    Tidy options (s.run crypto options steps) := by
  induction steps with
  | nil => intro s _ tidy _; exact tidy
  | cons step rest ih =>
    intro s kept tidy safe
    exact ih (step_kept step kept).1 (step_tidy step kept tidy safe.1) safe.2
theorem start_tidy (now : Nat) : Tidy options (System.start now) :=
  ⟨fun ino named => (by cases named),fun call identity step held => (by cases held),fun ino named => (by cases named)⟩

end

/-! ### A call alone -/

section
variable (crypto : Crypto) (options : Options)

/-- The path names a state that can be read, and nothing else does. -/
structure Good (disk : Disk) (ino : Nat) (identity : Identity) : Prop where
  named : disk.file = some ino
  single : disk.temporary ino = false
  mode : (disk.inodes ino).mode = privateMode
  fits : (disk.inodes ino).content.length ≤ maxStateBytes
  read : decodeState crypto options (utf8 (disk.inodes ino).content) = .ok identity
/-- The temporary file holds a whole state, and can be read. -/
structure Written (disk : Disk) (call : Nat) (identity : Identity) : Prop where
  fresh : Fresh crypto options identity
  fits : (stateBytes options identity).length ≤ maxStateBytes
  mode : (disk.inodes call).mode = privateMode
  content : (disk.inodes call).content = stateBytes options identity
/-- A call alone, with the most operations it has before it. -/
inductive Lone (disk : Disk) (call : Nat) : Nat → Phase → Prop
  | opening {ino : Nat} {identity : Identity} (good : Good crypto options disk ino identity) (own : Bool)
    (attempt : Nat) :
    Lone disk call (maxStateBytes + 8) (.reading own attempt .opening)
  | opened {ino : Nat} {identity : Identity} (good : Good crypto options disk ino identity) (own : Bool)
    (attempt : Nat) :
    Lone disk call (maxStateBytes + 7) (.reading own attempt (.opened ino))
  | loading {ino : Nat} {identity : Identity} (good : Good crypto options disk ino identity) (own : Bool)
    (attempt : Nat)
    {bytes : List UInt8} {n : Nat} (part : bytes <+: (disk.inodes ino).content)
    (left : (disk.inodes ino).content.length + 4 ≤ bytes.length + n) :
    Lone disk call n (.reading own attempt (.loading ino (disk.stat ino) bytes))
  | loaded {ino : Nat} {identity : Identity} (good : Good crypto options disk ino identity) (own : Bool)
    (attempt : Nat) :
    Lone disk call 3 (.reading own attempt (.loaded ino (disk.stat ino) (disk.inodes ino).content))
  | checked {ino : Nat} {identity : Identity} (good : Good crypto options disk ino identity) (own : Bool)
    (attempt : Nat) :
    Lone disk call 2 (.reading own attempt (.checked (disk.stat ino) (disk.stat ino) (disk.inodes ino).content))
  | closing {ino : Nat} {identity : Identity} (good : Good crypto options disk ino identity) (own : Bool)
    (attempt : Nat) :
    Lone disk call 1 (.reading own attempt (.closing (.ok identity)))
  | returned {ino : Nat} {identity : Identity} (good : Good crypto options disk ino identity) :
    Lone disk call 0 (.returned identity)
  | absent (none : disk.file = none) (attempt : Nat) :
    Lone disk call (2 * maxStateBytes + 19) (.reading false attempt .opening)
  | generating (none : disk.file = none) : Lone disk call (2 * maxStateBytes + 18) .generating
  | chmod (none : disk.file = none) {identity : Identity} (fresh : Fresh crypto options identity)
    (fits : (stateBytes options identity).length ≤ maxStateBytes) (empty : (disk.inodes call).content = []) :
    Lone disk call (2 * maxStateBytes + 17) (.making identity .chmod)
  | write (none : disk.file = none) {identity : Identity} (fresh : Fresh crypto options identity)
    (fits : (stateBytes options identity).length ≤ maxStateBytes) {rest : List UInt8}
    (mode : (disk.inodes call).mode = privateMode)
    (content : (disk.inodes call).content ++ rest = stateBytes options identity) :
    Lone disk call (rest.length + maxStateBytes + 16) (.making identity (.write rest))
  | sync (none : disk.file = none) {identity : Identity} (written : Written crypto options disk call identity) :
    Lone disk call (maxStateBytes + 15) (.making identity .sync)
  | close (none : disk.file = none) {identity : Identity} (written : Written crypto options disk call identity) :
    Lone disk call (maxStateBytes + 14) (.making identity .close)
  | link (none : disk.file = none) {identity : Identity} (written : Written crypto options disk call identity) :
    Lone disk call (maxStateBytes + 13) (.making identity .link)
  | unlink (named : disk.file = some call) {identity : Identity} (written : Written crypto options disk call identity) :
    Lone disk call (maxStateBytes + 12) (.making identity (.unlink true))
  | openDirectory {ino : Nat} {identity : Identity} (good : Good crypto options disk ino identity) (own : Identity) :
    Lone disk call (maxStateBytes + 11) (.making own .openDirectory)
  | syncDirectory {ino : Nat} {identity : Identity} (good : Good crypto options disk ino identity) (own : Identity) :
    Lone disk call (maxStateBytes + 10) (.making own .syncDirectory)
  | closeDirectory {ino : Nat} {identity : Identity} (good : Good crypto options disk ino identity) (own : Identity) :
    Lone disk call (maxStateBytes + 9) (.making own .closeDirectory)
end

section
variable {crypto : Crypto} {options : Options} {disk : Disk} {call : Nat} {s : System}

theorem Good.private {ino : Nat} {identity : Identity} (good : Good crypto options disk ino identity) :
    privateFile (disk.stat ino) = .ok () := by
  have single : disk.nlink ino = 1 := by
    unfold Disk.nlink
    rw [if_pos good.named,good.single]
    rfl
  unfold privateFile
  simp [Disk.stat,single,good.mode,good.fits]
theorem Fresh.read (sound : crypto.Sound) {identity : Identity} (fresh : Fresh crypto options identity) :
    decodeState crypto options (utf8 (stateBytes options identity)) = .ok identity := by
  obtain ⟨choice,rfl⟩ := fresh
  exact decode_encode sound options choice.secretKey.2 choice.seconds.2
theorem lone_next (sound : crypto.Sound) {n : Nat} {phase : Phase} (choice : Choice)
    (lone : Lone crypto options disk call (n + 1) phase) (safe : phase = .generating →
      (stateBytes options (newIdentity crypto options choice.secretKey choice.seconds)).length ≤ maxStateBytes) :
    ∃ m ≤ n, Lone crypto options (phase.next crypto options call choice disk).1 call m
      (phase.next crypto options call choice disk).2 := by
  generalize bound : n + 1 = k at lone
  cases lone with
  | opening good own attempt =>
    refine ⟨maxStateBytes + 7,by omega,?_⟩
    simp only [Phase.next,Reading.next,good.named]
    exact .opened good own attempt
  | @opened ino identity good own attempt =>
    refine ⟨maxStateBytes + 4,by omega,?_⟩
    simp only [Phase.next,Reading.next,good.private]
    refine .loading good own attempt List.nil_prefix ?_
    have fits := good.fits
    simp only [List.length_nil]
    omega
  | @loading ino identity good own attempt bytes _ part left =>
    have fits := good.fits
    have short := part.length_le
    obtain ⟨more,ended⟩ := read_more part choice.count
    simp only [Phase.next,Reading.next]
    split_ifs with none
    · refine ⟨3,by omega,?_⟩
      have whole : bytes = (disk.inodes ino).content := (ended none).resolve_right (by omega)
      rw [whole]
      exact .loaded good own attempt
    · refine ⟨n,le_rfl,.loading good own attempt more ?_⟩
      have grown := List.length_pos_of_ne_nil none
      rw [List.length_append]
      omega
  | loaded good own attempt =>
    refine ⟨2,by omega,?_⟩
    simp only [Phase.next,Reading.next,good.private]
    exact .checked good own attempt
  | @checked ino identity good own attempt =>
    refine ⟨1,by omega,?_⟩
    have fits := good.fits
    simp only [Phase.next,Reading.next,good.named,good.read]
    rw [if_neg (by simp [Disk.stat,fits])]
    exact .closing good own attempt
  | closing good own attempt => exact ⟨0,by omega,.returned good⟩
  | returned good => omega
  | absent none attempt =>
    refine ⟨2 * maxStateBytes + 18,by omega,?_⟩
    simp only [Phase.next,Reading.next,none]
    exact .generating none
  | generating none =>
    refine ⟨2 * maxStateBytes + 17,by omega,?_⟩
    have absent : (Phase.next crypto options call choice disk .generating).1.file = Option.none := none
    refine .chmod absent ⟨choice,rfl⟩ (safe rfl) ?_
    simp [Phase.next,Disk.put]
  | @chmod none identity fresh fits empty =>
    refine ⟨(stateBytes options identity).length + maxStateBytes + 16,by omega,?_⟩
    have absent : (Phase.next crypto options call choice disk (.making identity .chmod)).1.file = Option.none := none
    refine .write absent fresh fits ?_ ?_
    · simp [Phase.next,Making.next,Disk.put]
    · simp [Phase.next,Making.next,Disk.put,empty]
  | @write none identity fresh fits rest mode content =>
    simp only [Phase.next,Making.next]
    split_ifs with empty
    · refine ⟨maxStateBytes + 15,by omega,.sync none ⟨fresh,fits,mode,?_⟩⟩
      rw [empty,List.append_nil] at content
      exact content
    · have some := List.length_pos_of_ne_nil empty
      refine ⟨(rest.drop (choice.count + 1)).length + maxStateBytes + 16,?_,?_⟩
      · rw [List.length_drop]
        omega
      · dsimp only
        generalize grown : disk.put call _ = after
        have absent : after.file = Option.none := by rw [← grown]; exact none
        refine .write absent fresh fits ?_ ?_
        · simp [← grown,Disk.put,mode]
        · simp [← grown,Disk.put,content]
  | sync none written => exact ⟨maxStateBytes + 14,by omega,.close none written⟩
  | close none written => exact ⟨maxStateBytes + 13,by omega,.link none written⟩
  | link none written =>
    refine ⟨maxStateBytes + 12,by omega,?_⟩
    simp only [Phase.next,Making.next,none]
    obtain ⟨content,mode⟩ := touch_inode { disk with file := some call } call
    exact .unlink rfl ⟨written.fresh,written.fits,mode.trans written.mode,content.trans written.content⟩
  | @unlink named identity written =>
    refine ⟨maxStateBytes + 11,by omega,?_⟩
    obtain ⟨content,mode⟩ := touch_inode { disk with temporary := Function.update disk.temporary call false } call
    have good : Good crypto options (Phase.next crypto options call choice disk (.making identity (.unlink true))).1
        call identity := by
      refine ⟨named,?_,mode.trans written.mode,?_,?_⟩
      · simp [Phase.next,Making.next,Disk.touch,Disk.put]
      · refine le_of_eq_of_le (congrArg List.length (content.trans written.content)) written.fits
      · refine Eq.trans (congrArg _ (congrArg _ (content.trans written.content))) (written.fresh.read sound)
    exact .openDirectory good identity
  | openDirectory good own => exact ⟨maxStateBytes + 10,by omega,.syncDirectory good own⟩
  | syncDirectory good own => exact ⟨maxStateBytes + 9,by omega,.closeDirectory good own⟩
  | closeDirectory good own => exact ⟨maxStateBytes + 8,by omega,.opening good true 0⟩
theorem lone_tick {n : Nat} {phase : Phase} {now : Nat} (lone : Lone crypto options disk call n phase) :
    Lone crypto options { disk with now := now } call n phase := by
  have good : ∀ {ino identity}, Good crypto options disk ino identity →
      Good crypto options { disk with now := now } ino identity :=
    fun g => ⟨g.named,g.single,g.mode,g.fits,g.read⟩
  have written : ∀ {identity}, Written crypto options disk call identity →
      Written crypto options { disk with now := now } call identity := fun w => ⟨w.fresh,w.fits,w.mode,w.content⟩
  cases lone with
  | opening g own attempt => exact .opening (good g) own attempt
  | opened g own attempt => exact .opened (good g) own attempt
  | loading g own attempt part left => exact .loading (good g) own attempt part left
  | loaded g own attempt => exact .loaded (good g) own attempt
  | checked g own attempt => exact .checked (good g) own attempt
  | closing g own attempt => exact .closing (good g) own attempt
  | returned g => exact .returned (good g)
  | absent none attempt =>
    have absent : ({ disk with now := now } : Disk).file = Option.none := none
    exact .absent absent attempt
  | generating none =>
    have absent : ({ disk with now := now } : Disk).file = Option.none := none
    exact .generating absent
  | chmod none fresh fits empty =>
    have absent : ({ disk with now := now } : Disk).file = Option.none := none
    exact .chmod absent fresh fits empty
  | write none fresh fits mode content =>
    have absent : ({ disk with now := now } : Disk).file = Option.none := none
    exact .write absent fresh fits mode content
  | sync none w =>
    have absent : ({ disk with now := now } : Disk).file = Option.none := none
    exact .sync absent (written w)
  | close none w =>
    have absent : ({ disk with now := now } : Disk).file = Option.none := none
    exact .close absent (written w)
  | link none w =>
    have absent : ({ disk with now := now } : Disk).file = Option.none := none
    exact .link absent (written w)
  | unlink named w =>
    have named' : ({ disk with now := now } : Disk).file = some call := named
    exact .unlink named' (written w)
  | openDirectory g own => exact .openDirectory (good g) own
  | syncDirectory g own => exact .syncDirectory (good g) own
  | closeDirectory g own => exact .closeDirectory (good g) own

/-- The steps of one call and of the clock. -/
def Step.alone (call : Nat) : Step → Bool
  | .go other _ => other = call
  | .tick _ => true
  | _ => false
def Step.goes : Step → Bool
  | .go _ _ => true
  | _ => false
theorem lone_run (sound : crypto.Sound) (steps : List Step) : ∀ {s : System} {n : Nat} {phase : Phase},
    s.calls call = some phase → Lone crypto options s.disk call n phase → SafeRun crypto options s steps →
    (∀ step ∈ steps, step.alone call = true) → ∃ m ≤ n - (steps.filter Step.goes).length, ∃ phase',
      (s.run crypto options steps).calls call = some phase' ∧
        Lone crypto options (s.run crypto options steps).disk call m phase' := by
  induction steps with
  | nil => intro s n phase held lone _ _; exact ⟨n,le_rfl,phase,held,lone⟩
  | cons step rest ih =>
    intro s n phase held lone safe alone
    have later : ∀ step ∈ rest, step.alone call = true :=
      fun other inside => alone other (List.mem_cons_of_mem _ inside)
    have first := alone step (by simp)
    cases step with
    | begin other => cases first
    | crash other => cases first
    | tick ms =>
      obtain ⟨m,less,phase',held',lone'⟩ :=
        ih (s := s.step crypto options (.tick ms)) held (lone_tick lone) safe.2 later
      exact ⟨m,less,phase',held',lone'⟩
    | go other choice =>
      have own : other = call := by simpa [Step.alone] using first
      subst own
      have went : s.step crypto options (.go other choice) = ⟨(phase.next crypto options other choice s.disk).1,
          Function.update s.calls other (some (phase.next crypto options other choice s.disk).2)⟩ := by
        simp only [System.step,held]
      have next : ∃ m ≤ n - 1, Lone crypto options (phase.next crypto options other choice s.disk).1 other m
          (phase.next crypto options other choice s.disk).2 := by
        cases n with
        | zero =>
          cases lone with
          | returned good => exact ⟨0,le_rfl,.returned good⟩
          | loading good own attempt part left =>
            have short := part.length_le
            omega
        | succ n =>
          refine lone_next sound choice lone fun drawn => ?_
          rw [drawn] at held
          exact safe.1 held
      obtain ⟨m,less,lone'⟩ := next
      have held' : (s.step crypto options (.go other choice)).calls other =
          some (phase.next crypto options other choice s.disk).2 := by
        rw [went]
        exact Function.update_self _ _ _
      rw [went] at held'
      have safe' := safe.2
      rw [went] at safe'
      obtain ⟨m',less',phase',held'',lone''⟩ := ih held' lone' safe' later
      refine ⟨m',?_,phase',?_,?_⟩
      · rw [List.filter_cons_of_pos rfl,List.length_cons]
        omega
      · change ((s.step crypto options (.go other choice)).run crypto options rest).calls other = some phase'
        rw [went]
        exact held''
      · change Lone crypto options ((s.step crypto options (.go other choice)).run crypto options rest).disk
          other m' phase'
        rw [went]
        exact lone''
theorem tidy_good (sound : crypto.Sound) (kept : Kept crypto options s) (tidy : Tidy options s)
    (ended : ∀ call phase, s.calls call = some phase → phase.ended = true) {ino : Nat}
    (named : s.disk.file = some ino) :
    ∃ identity, Good crypto options s.disk ino identity := by
  obtain ⟨identity,fresh,content,mode⟩ := kept.whole ino named
  refine ⟨identity,named,?_,mode,tidy.fits ino named,?_⟩
  · cases stands : s.disk.temporary ino with
    | false => rfl
    | true =>
      obtain ⟨other,unlinking⟩ := tidy.linked ino named stands
      cases ended ino _ unlinking
  · rw [content]
    exact fresh.read sound
theorem Good.identity {ino : Nat} {identity : Identity} (good : Good crypto options disk ino identity) :
    disk.identity crypto options = some identity := by
  unfold Disk.identity
  rw [good.named,Option.bind_some,good.read]
  rfl

/-- For every interleaving of any calls on one path: all that return give one identity;
    what the path names is whole and is never replaced; and when no call ended between its
    link and its unlink and no state is too long to be read, a call alone, once the others
    have ended, returns the identity there is, or one of its own, in a bounded number of
    operations. -/
theorem one_identity (sound : crypto.Sound) (now : Nat) (steps : List Step) :
    (∀ a b i j, ((System.start now).run crypto options steps).calls a = some (.returned i) →
      ((System.start now).run crypto options steps).calls b = some (.returned j) → i = j) ∧
    (∀ ino more, ((System.start now).run crypto options steps).disk.file = some ino →
      (∃ identity, Fresh crypto options identity ∧
        (((System.start now).run crypto options steps).disk.inodes ino).content = stateBytes options identity) ∧
      (((System.start now).run crypto options steps).run crypto options more).disk.file = some ino ∧
      ((((System.start now).run crypto options steps).run crypto options more).disk.inodes ino).content =
        (((System.start now).run crypto options steps).disk.inodes ino).content) ∧
    (SafeRun crypto options (System.start now) steps →
      (∀ call phase, ((System.start now).run crypto options steps).calls call = some phase → phase.ended = true) →
      ∀ call alone, ((System.start now).run crypto options steps).calls call = none →
        (∀ step ∈ alone, step.alone call = true) →
        SafeRun crypto options ((System.start now).run crypto options steps) (.begin call :: alone) →
        2 * maxStateBytes + 19 ≤ (alone.filter Step.goes).length → ∃ identity,
          (((System.start now).run crypto options steps).run crypto options (.begin call :: alone)).calls call =
            some (.returned identity) ∧
          (((System.start now).run crypto options steps).run crypto options (.begin call :: alone)).disk.identity
            crypto options =
            some identity ∧
          ∀ linked, ((System.start now).run crypto options steps).disk.identity crypto options = some linked →
            identity = linked) := by
  have first : Kept crypto options (System.start now) := start_kept now
  obtain ⟨kept,_⟩ := run_kept steps first
  generalize reached : (System.start now).run crypto options steps = s at kept ⊢
  refine ⟨fun a b i j first second => ?_,fun ino more named => ?_,
    fun safe ended call alone fresh only safe' enough => ?_⟩
  · have one : s.disk.identity crypto options = some i := kept.holds a _ first
    have two : s.disk.identity crypto options = some j := kept.holds b _ second
    rw [one] at two
    exact Option.some.inj two
  · obtain ⟨identity,drawn,content,_⟩ := kept.whole ino named
    obtain ⟨_,onward⟩ := run_kept more kept
    exact ⟨⟨identity,drawn,content⟩,onward.file ino named,onward.content ino named⟩
  · have tidy : Tidy options s := by
      rw [← reached]
      exact run_tidy steps (start_kept now) (start_tidy now) safe
    have began : s.step crypto options (.begin call) =
        { s with calls := Function.update s.calls call (some (.reading false 0 .opening)) } := by
      unfold System.step
      dsimp only
      rw [if_neg (by simp [fresh])]
    have held : (s.step crypto options (.begin call)).calls call = some (.reading false 0 .opening) := by
      rw [began]
      exact Function.update_self _ _ _
    have lone : ∃ n ≤ 2 * maxStateBytes + 19, Lone crypto options (s.step crypto options (.begin call)).disk call n
        (.reading false 0 .opening) := by
      rw [began]
      cases named : s.disk.file with
      | none => exact ⟨_,le_rfl,.absent named 0⟩
      | some ino =>
        obtain ⟨identity,good⟩ := tidy_good sound kept tidy ended named
        exact ⟨maxStateBytes + 8,by omega,.opening good false 0⟩
    obtain ⟨n,few,lone⟩ := lone
    obtain ⟨m,less,phase,held',lone'⟩ := lone_run sound alone held lone safe'.2 only
    have spent : m = 0 := by omega
    subst spent
    obtain ⟨_,onward⟩ := run_kept (.begin call :: alone) kept
    cases lone' with
    | returned good =>
      refine ⟨_,held',good.identity,fun linked before => ?_⟩
      have after := onward.identity before
      change ((s.step crypto options (.begin call)).run crypto options alone).disk.identity crypto options =
        some linked at after
      rw [good.identity] at after
      exact Option.some.inj after
    | loading good own attempt part left =>
      have short := part.length_le
      omega

end

/-! ### A loose end -/

def zeros (length : Nat) : Text := List.replicate length 48
def zeroCrypto : Crypto := ⟨fun _ => zeros 64,fun _ => zeros 64,fun _ _ => zeros 64,fun _ _ => zeros 128,fun _ => true⟩
theorem zeroCrypto_sound : zeroCrypto.Sound := by
  have short : hexText 64 (zeros 64) = true := by decide
  have long : hexText 128 (zeros 128) = true := by decide
  exact ⟨fun _ => short,fun _ _ => short,fun _ _ => short,fun _ _ => long,fun _ _ _ => rfl⟩
def master : Options := ⟨lit "/media/master.m3u8",none,by decide,by simp,by simp⟩
def firstChoice : Choice := ⟨4000,⟨zeros 64,by decide⟩,⟨0,by decide⟩,384⟩
def loseLink : List Step := .begin 0 :: List.replicate 8 (.go 0 firstChoice) ++ [.crash 0]
def nextCall : List Step := .begin 1 :: List.replicate 43 (.go 1 firstChoice)
theorem safe_replicate {crypto : Crypto} {options : Options} {choice : Choice} (call : Nat)
    (fits : (stateBytes options (newIdentity crypto options choice.secretKey choice.seconds)).length ≤ maxStateBytes)
    (n : Nat) :
    ∀ s : System, SafeRun crypto options s (List.replicate n (.go call choice)) := by
  induction n with
  | zero => exact fun _ => trivial
  | succ n ih => exact fun s => ⟨fun _ => fits,ih _⟩
/-- What a lost link names stays, and a call alone returns when none was lost. -/
theorem one_identity_zeros :
    (((System.start 0).run zeroCrypto master loseLink).run zeroCrypto master nextCall).disk.file = some 0 ∧
    ∃ identity, (((System.start 0).run zeroCrypto master []).run zeroCrypto master
      (.begin 0 :: List.replicate (2 * maxStateBytes + 19) (.go 0 firstChoice))).calls 0 = some (.returned
        identity) := by
  have fits : (stateBytes master (newIdentity zeroCrypto master firstChoice.secretKey firstChoice.seconds)).length ≤
      maxStateBytes := by
    decide +kernel
  refine ⟨((one_identity zeroCrypto_sound 0 loseLink).2.1 0 nextCall (by decide +kernel)).2.1,?_⟩
  obtain ⟨identity,returned,_⟩ := (one_identity zeroCrypto_sound 0 []).2.2 trivial (fun _ _ none => by cases none) 0
    (List.replicate (2 * maxStateBytes + 19) (.go 0 firstChoice)) rfl
    (fun step listed => by rw [List.eq_of_mem_replicate listed]; rfl)
    ⟨trivial,safe_replicate 0 fits _ _⟩ (by rw [List.filter_replicate_of_pos rfl,List.length_replicate])
  exact ⟨identity,returned⟩
theorem run_elsewhere {crypto : Crypto} {options : Options} {call : Nat} (steps : List Step) : ∀ {s : System},
    (∀ step ∈ steps, step = .begin call ∨ (∃ choice, step = .go call choice) ∨ step = .crash call) →
    ∀ other, other ≠ call → (s.run crypto options steps).calls other = s.calls other := by
  induction steps with
  | nil => intro s _ other _; rfl
  | cons step rest ih =>
    intro s about other apart
    have later :=
      ih (s := s.step crypto options step) (fun next inside => about next (List.mem_cons_of_mem _ inside)) other apart
    have same : (s.step crypto options step).calls other = s.calls other := by
      rcases about step (by simp) with rfl | ⟨choice,rfl⟩ | rfl
      · unfold System.step
        dsimp only
        split_ifs
        · rfl
        · exact Function.update_of_ne apart _ _
      · unfold System.step
        dsimp only
        split
        · rfl
        · exact Function.update_of_ne apart _ _
      · unfold System.step
        dsimp only
        split
        · rfl
        · split_ifs
          · rfl
          · exact Function.update_of_ne apart _ _
    exact later.trans same
def refused : Option Phase → Bool
  | some (.thrown (.unsafeLoad .links)) => true
  | _ => false
def lost : Option Phase → Bool
  | some .crashed => true
  | _ => false
theorem refused_eq {phase : Option Phase} (mark : refused phase = true) :
    phase = some (.thrown (.unsafeLoad .links)) := by
  unfold refused at mark
  split at mark
  · rfl
  · cases mark
theorem lost_eq {phase : Option Phase} (mark : lost phase = true) : phase = some .crashed := by
  unfold lost at mark
  split at mark
  · rfl
  · cases mark
/-- The path names a state, every call has ended, and yet a call alone throws. -/
theorem crash_loses_identity :
    (∀ call phase, ((System.start 0).run zeroCrypto master loseLink).calls call = some phase → phase.ended = true) ∧
    ((System.start 0).run zeroCrypto master loseLink).disk.file = some 0 ∧
    (((System.start 0).run zeroCrypto master loseLink).run zeroCrypto master nextCall).calls 1 =
      some (.thrown (.unsafeLoad .links)) := by
  refine ⟨fun call phase held => ?_,by decide +kernel,refused_eq (by decide +kernel)⟩
  by_cases own : call = 0
  · have ended : lost (((System.start 0).run zeroCrypto master loseLink).calls 0) = true := by decide +kernel
    rw [own,lost_eq ended] at held
    cases held
    rfl
  · have about : ∀ step ∈ loseLink, step = .begin 0 ∨ (∃ choice, step = .go 0 choice) ∨ step = .crash 0 := by
      intro step inside
      simp only [loseLink,List.cons_append,List.mem_cons,List.mem_append,List.mem_replicate,List.not_mem_nil,or_false]
        at inside
      rcases inside with rfl | ⟨_,rfl⟩ | rfl
      · exact .inl rfl
      · exact .inr (.inl ⟨_,rfl⟩)
      · exact .inr (.inr rfl)
    rw [run_elsewhere loseLink about call own] at held
    cases held

end RelaySwarm.Publisher
