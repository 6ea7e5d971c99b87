import RelaySwarm.LedgerRequests
import RelaySwarm.LedgerQueue

/-!
Runs of the ledger over many processes. A request is applied to the durable state,
as the queue does it; a process ends by closing or by a crash, which
loses what it had applied and not yet written, and the next one opens the file. The
log has every request answered, with the state before and after.
-/
namespace RelaySwarm.Ledger
open Effect

structure Happening where
  /-- The number of the process that answered it. -/
  process : Nat
  before : Data
  start : Side
  request : Request
  answer : Answer
  after : Data
  finish : Side

/-- The file of a ledger and the process that has it open, if one has. -/
structure Process where
  data : Data
  side : Side
  up : Bool
  opened : Nat
  log : List Happening

inductive Step where
  | request (entry : Entry)
  /-- The process ends, and the requests it had applied since the last write are lost. -/
  | crash (lost : List Entry)
  | close
  | reopen

/-- The process after it answered a request. -/
abbrev Process.answered (p : Process) (request : Request) (answer : Answer) (data : Data) (side : Side) : Process :=
  { p with data, side, log := p.log ++ [⟨p.opened,p.data,p.side,request,answer,data,side⟩] }

section
variable (world : World) (options : Options)

def fresh (secret : String) (moment : Int) (side : Side) : Process := ⟨emptyData secret moment,side,false,0,[]⟩
/-- A request applied, and logged when it is answered. -/
def Process.answer (p : Process) (entry : Entry) : Process :=
  match apply world options entry p.data p.side with
  | (.ok (answer,data),side) => p.answered entry.request answer data side
  | (.error _,side) => { p with side }
/-- What the process remembers after requests whose changes are lost. -/
def lose (working : Data) (side : Side) : List Entry → Side
  | [] => side
  | entry :: rest =>
    match apply world options entry working side with
    | (.ok (_,working'),side') => lose working' side' rest
    | (.error _,side') => lose working side' rest
/-- Closing saves the highest wall clock seen and forgets the expiries. -/
def Process.close (p : Process) : Process :=
  { p with
    data := { p.data with lastWall := max p.data.lastWall p.side.highestWall }
    side := { p.side with expiries := fun _ => none }
    up := false }
/-- The next process opens the file; it runs when the file is valid. -/
def Process.reopen (p : Process) : Process :=
  match Ledger.reopen world options p.data p.side with
  | (.ok _,side) => { p with side, up := true, opened := p.opened + 1 }
  | (.error _,side) => { p with side, opened := p.opened + 1 }
def Process.step (p : Process) : Step → Process
  | .request entry => if p.up then p.answer world options entry else p
  | .crash lost => if p.up then { p with side := lose world options p.data p.side lost, up := false } else p
  | .close => if p.up then p.close else p
  | .reopen => if p.up then p else p.reopen world options
def Process.run (p : Process) (steps : List Step) : Process := steps.foldl (Process.step world options) p

variable {world options}

/-- A step that answers nothing: the state is as it was but for the clock mark. -/
structure Rests (world : World) (p p' : Process) : Prop where
  log : p'.log = p.log
  data : ∃ here, p'.data = { p.data with lastWall := here }
  tokens : p.side.tokens ≤ p'.side.tokens
  process : p'.opened = p.opened ∧ Keeps world (fun _ => False) p.side p'.side ∨ p'.opened = p.opened + 1
theorem Rests.refl (p : Process) : Rests world p p := ⟨rfl,⟨_,rfl⟩,Nat.le_refl _,.inl ⟨rfl,Keeps.refl _⟩⟩
theorem Rests.of_kept {p p' : Process} (kept : Keeps world (fun _ => False) p.side p'.side) (log : p'.log = p.log)
    (data : ∃ here, p'.data = { p.data with lastWall := here }) (opened : p'.opened = p.opened) : Rests world p p' :=
  ⟨log,data,kept.tokens,.inl ⟨opened,kept⟩⟩

theorem lose_kept (lost : List Entry) : ∀ working side, Keeps world (fun _ => False) side
    (lose world options working side lost) := by
  induction lost with
  | nil => intro working side; exact Keeps.refl _
  | cons entry rest ih =>
    intro working side
    have kept : Keeps world (fun _ => False) side (apply world options entry working side).2 :=
      apply_kept entry working side
    unfold lose
    cases applied : apply world options entry working side with
    | mk outcome side' =>
      rw [applied] at kept
      cases outcome with
      | ok done => exact Keeps.trans _ _ _ kept (ih done.2 side')
      | error refusal => exact Keeps.trans _ _ _ kept (ih working side')
/-- No token is drawn back. -/
abbrev Draws {α : Type} (m : LedgerM α) : Prop := Within (fun s s' : Side => s.tokens ≤ s'.tokens) m
theorem Draws.bind {α β : Type} {m : LedgerM α} {f : α → LedgerM β} (first : Draws m) (second : ∀ a, Draws (f a)) :
    Draws (m >>= f) :=
  Within.bind (r := fun s s' : Side => s.tokens ≤ s'.tokens) (fun _ _ _ => Nat.le_trans) first second
theorem Draws.of_kept {α : Type} {m : LedgerM α} (kept : Kept world m) : Draws m := fun s => (kept s).tokens
theorem reopen_tokens (file : Data) : Draws (Ledger.reopen world options file) := by
  refine Draws.bind (fun s => Nat.le_refl _) fun _ => Draws.bind (Draws.of_kept (validate_kept file)) fun _ => ?_
  refine Draws.bind (Draws.of_kept time_kept) fun _ => ?_
  exact Draws.bind (fun s => Nat.le_refl _) fun _ => fun s => Nat.le_refl _

theorem step_cases (p : Process) (step : Step) : Rests world p (p.step world options step) ∨
    ∃ entry answer data side, apply world options entry p.data p.side = (.ok (answer,data),side) ∧
      p.step world options step = p.answered entry.request answer data side := by
  unfold Process.step
  cases step with
  | request entry =>
    dsimp only
    split_ifs with up
    · have kept : Keeps world (fun _ => False) p.side (apply world options entry p.data p.side).2 :=
        apply_kept entry _ _
      unfold Process.answer
      cases applied : apply world options entry p.data p.side with
      | mk outcome side =>
        rw [applied] at kept
        cases outcome with
        | ok done => exact .inr ⟨entry,done.1,done.2,side,applied,rfl⟩
        | error refusal => exact .inl (.of_kept kept rfl ⟨_,rfl⟩ rfl)
    · exact .inl (.refl p)
  | crash lost =>
    dsimp only
    split_ifs with up
    · exact .inl (.of_kept (lose_kept lost _ _) rfl ⟨_,rfl⟩ rfl)
    · exact .inl (.refl p)
  | close =>
    dsimp only
    split_ifs with up
    · exact .inl (.of_kept ⟨le_refl _,Nat.le_refl _,fun _ _ => .inr (.inl rfl)⟩ rfl ⟨_,rfl⟩ rfl)
    · exact .inl (.refl p)
  | reopen =>
    dsimp only
    split_ifs with up
    · exact .inl (.refl p)
    · have tokens : p.side.tokens ≤ (Ledger.reopen world options p.data p.side).2.tokens :=
        reopen_tokens _ _
      unfold Process.reopen
      cases opened : Ledger.reopen world options p.data p.side with
      | mk outcome side =>
        rw [opened] at tokens
        cases outcome with
        | ok _ => exact .inl ⟨rfl,⟨_,rfl⟩,tokens,.inr rfl⟩
        | error refusal => exact .inl ⟨rfl,⟨_,rfl⟩,tokens,.inr rfl⟩

theorem run_invariant {I : Process → Prop} (kept : ∀ p step, I p → I (p.step world options step)) (steps : List Step) :
    ∀ {p}, I p → I (p.run world options steps) := by
  induction steps with
  | nil => exact fun start => start
  | cons step rest ih => exact fun start => ih (kept _ step start)

theorem log_split {log earlier later : List Happening} {h last : Happening}
    (same : log ++ [last] = earlier ++ h :: later) :
    (∃ more, log = earlier ++ h :: more ∧ later = more ++ [last]) ∨ earlier = log ∧ h = last ∧ later = [] := by
  rcases List.eq_nil_or_concat later with rfl | ⟨more,x,rfl⟩
  · obtain ⟨rfl,equal⟩ := List.append_inj' same rfl
    cases equal
    exact .inr ⟨rfl,rfl,rfl⟩
  · rw [List.concat_eq_append,← List.cons_append,← List.append_assoc] at same
    obtain ⟨rfl,equal⟩ := List.append_inj' same rfl
    cases equal
    exact .inl ⟨more,rfl,by simp⟩
theorem log_concat {Q : List Happening → Happening → Prop} {log : List Happening} {last : Happening}
    (all : ∀ earlier h later, log = earlier ++ h :: later → Q earlier h) (next : Q log last) :
    ∀ earlier h later, log ++ [last] = earlier ++ h :: later → Q earlier h := by
  intro earlier h later same
  rcases log_split same with ⟨more,split,_⟩ | ⟨rfl,rfl,_⟩
  · exact all earlier h more split
  · exact next

theorem refused_same {p : Process} {entry : Entry} {refusal : Refusal}
    (refused : (apply world options entry p.data p.side).1 = .error refusal) :
    (p.step world options (.request entry)).data = p.data ∧ (p.step world options (.request entry)).log = p.log := by
  unfold Process.step Process.answer
  dsimp only
  split_ifs with up
  · cases applied : apply world options entry p.data p.side with
    | mk outcome side =>
      rw [applied] at refused
      cases refused
      exact ⟨rfl,rfl⟩
  · exact ⟨rfl,rfl⟩

end

/-! ### A ledger to compute with -/

def digits (length one : Nat) : String := String.ofList ((List.replicate length '0').set one '1')
/-- Clocks that tick at each reading, and a keyed digest that tells the methods apart. -/
def steadyWorld : World where
  now n := some n
  monotonic n := n
  token := digits 64
  accountId := digits 32
  digest _ value := digits 64 (if value.method = "nostr" then 0 else 1)
def smallOptions : Options := ⟨1000,120,10800,256,512,1024,8192⟩
def viewer : Verified := ⟨"nostr","nostr","viewer"⟩
def customer : Verified := ⟨"website","shop","customer"⟩
/-- An authorisation of a page for some identities. -/
def asked (identities : List Verified) (settings : Option Settings) : Request :=
  .authorize identities ⟨digits 64 9,identities.map (·.method),100000,100000,settings,identities.length = 2⟩
/-- A ledger just created, with its first process open and requests made one by one. -/
def steadyRun (requests : List Request) : Process :=
  (fresh (digits 64 0) 0 ⟨0,fun _ => none,0,0,0,0⟩).run steadyWorld smallOptions
    (.reopen :: requests.map (fun request => .request ⟨request,false,false⟩))

end RelaySwarm.Ledger
