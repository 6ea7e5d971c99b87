import RelaySwarm.Playlist
import Mathlib.Logic.Function.Basic

/-!
The broadcast pipeline: one loop runs an encoder after the other, each in a directory
of its own (`work`), and another loop publishes what the latest one wrote (`publish`).
Every step is one file operation, or what the code does between two of them; a crash
ends the process and leaves the files.
-/
namespace RelaySwarm.Broadcast
open Script Playlist

inductive Level where
  | low | high
deriving DecidableEq
def renditions : List Level := [.low,.high]
def Level.name : Level → Text
  | .low => lit "low"
  | .high => lit "high"
def Level.stream : Level → Text
  | .low => lit "#EXT-X-STREAM-INF:BANDWIDTH=850000,RESOLUTION=640x360,FRAME-RATE=30\nlow/index.m3u8\n"
  | .high => lit "#EXT-X-STREAM-INF:BANDWIDTH=2800000,RESOLUTION=1280x720,FRAME-RATE=30\nhigh/index.m3u8\n"
def masterText : Text := lit "#EXTM3U\n#EXT-X-VERSION:3\n" ++ renditions.flatMap Level.stream

/-- `Date.now()` and `randomBytes(6)` for one name. -/
structure Draw where
  clock : Nat
  random : List UInt8
def hexByte (byte : UInt8) : Text := [hexDigit (byte.toNat / 16),hexDigit (byte.toNat % 16)]
def entryName (draw : Draw) : Text := lit "run-" ++ digits draw.clock ++ '-' :: draw.random.flatMap hexByte

/-- A generation; the serial number tells which object it is. -/
structure Generation where
  serial : Nat
  discontinuity : Nat
  startNumber : Nat
deriving DecidableEq
/-- An encoder's playlist and its published form. -/
structure Copy where
  raw : Text
  body : Text
/-- An encoder: where it starts, and the first number and the length of the playlist it
    last wrote for each rendition. -/
structure Encoder where
  startNumber : Nat
  window : Level → Option (Nat × Nat)

/-- Where the encoder loop is: the next file operation, or the encoder it waits for. -/
inductive Working where
  | pausing
  | counting (serial : Nat)
  | recording (serial count : Nat)
  | statting (serial : Nat) (level : Level) (left : List Level) (position : Position)
  | reading (serial : Nat) (level : Level) (left : List Level) (position : Position)
  | placing (serial : Nat) (position : Position)
  | launching
  | running
  | failed
  | stopped
/-- Where the publication loop is. -/
inductive Publishing where
  | resting
  | reading (current : Generation) (level : Level) (left : List Level) (pending : Level → Option Copy)
  | writing (current : Generation) (level : Level) (left : List Level) (pending : Level → Option Copy) (copy : Copy)
  | moving (current : Generation) (level : Level) (left : List Level) (pending : Level → Option Copy) (copy : Copy)
  | checking (current : Generation) (level : Level) (left : List Level) (pending : Level → Option Copy) (copy : Copy)
  | masterReading
  | masterWriting
  | masterRenaming
structure Process where
  generation : Option Generation
  lastCopies : Level → Option Text
  working : Working
  publishing : Publishing
  isStopped : Bool
/-- The files of the media directory, the encoders that were started and the process. -/
structure System where
  published : Level → Option Text
  master : Option Text
  /-- The number in `.generation`; zero without the file. -/
  counter : Nat
  /-- The playlists the encoders wrote, by the name of the directory. -/
  runs : Text → Level → Option Text
  encoders : Nat → Option Encoder
  /-- So many names were drawn. -/
  drawn : Nat
  process : Option Process

/-- An empty media directory. -/
def System.empty : System where
  published := fun _ => none
  master := none
  counter := 0
  runs := fun _ _ => none
  encoders := fun _ => none
  drawn := 0
  process := none
/-- A process just after its start. -/
def Process.initial : Process where
  generation := none
  lastCopies := fun _ => none
  working := .pausing
  publishing := .resting
  isStopped := false
def System.withProcess (s : System) (p : Process) : System := { s with process := some p }
def Process.goto (p : Process) (working : Working) : Process := { p with working }
def Process.on (p : Process) (publishing : Publishing) : Process := { p with publishing }

section
variable (draws : Nat → Draw)

def entry (serial : Nat) : Text := entryName (draws serial)

/-! ### The encoder loop -/

/-- The next rendition whose published playlist is looked at, or the end of them. -/
def seek (serial : Nat) (position : Position) : List Level → Working
  | [] => .placing serial position
  | level :: rest => .statting serial level rest position
/-- The encoder is started in its directory, from its first number on. -/
def System.spawn (s : System) (g : Generation) : System :=
  { s with encoders := Function.update s.encoders g.serial (some ⟨g.startNumber,fun _ => none⟩) }
/-- The encoder loop goes on. A fault is an error of the file operation other than a
    missing file, or an encoder that cannot be started. -/
def System.work (s : System) (p : Process) (fault : Bool) : System :=
  match p.working with
  | .pausing =>
    if p.isStopped then s.withProcess (p.goto .stopped)
    else { s with drawn := s.drawn + 1 }.withProcess (p.goto (if fault then .failed else .counting s.drawn))
  | .counting serial =>
    s.withProcess (p.goto (if !fault && isSafe (s.counter + 2) then .recording serial (s.counter + 1) else .failed))
  | .recording serial count =>
    if fault then s.withProcess (p.goto .failed)
    else { s with counter := count }.withProcess (p.goto (seek serial .start renditions))
  | .statting serial level left position =>
    s.withProcess (p.goto
      (if fault then .failed
      else match s.published level with
        | none => seek serial position left
        | some body => if size body ≤ maxPlaylistUnits then .reading serial level left position else .failed))
  | .reading serial level left position =>
    s.withProcess (p.goto
      (if fault then .failed
      else match s.published level with
        | none => seek serial position left
        | some body =>
          match positionOf body with
          | none => .failed
          | some found => seek serial (position.max found) left))
  | .placing serial position =>
    s.withProcess { p with
      generation := some ⟨serial,position.nextDiscontinuity,position.nextSequence⟩
      lastCopies := fun _ => none
      working := .launching }
  | .launching =>
    match p.generation with
    | none => s.withProcess (p.goto .failed)
    | some g =>
      if !isSafe g.startNumber then s.withProcess (p.goto .failed)
      else if p.isStopped then s.withProcess (p.goto .stopped)
      else (s.spawn g).withProcess (p.goto .running)
  | .running => s.withProcess (p.goto (if p.isStopped then .stopped else if fault then .failed else .pausing))
  | .failed | .stopped => s

/-! ### The publication loop -/

/-- The next rendition that has another playlist than the one published before. A
    publication ends when the generation was replaced or the pipeline stopped. -/
def Process.advance (p : Process) (current : Generation) (pending : Level → Option Copy) : List Level → Publishing
  | [] => if renditions.all (fun level => (p.lastCopies level).isSome) && !p.isStopped then .masterReading else .resting
  | level :: rest =>
    if p.generation ≠ some current || p.isStopped then .resting
    else match pending level with
      | none => .resting
      | some copy =>
        if p.lastCopies level = some copy.raw then p.advance current pending rest
        else .writing current level rest pending copy
def Process.published (p : Process) (level : Level) (raw : Text) : Process :=
  { p with lastCopies := Function.update p.lastCopies level (some raw) }
/-- The published playlist is replaced. -/
def System.replace (s : System) (level : Level) (body : Text) : System :=
  { s with published := Function.update s.published level (some body) }
/-- What the publication loop does after it read an encoder's playlist. -/
def Process.take (p : Process) (current : Generation) (level : Level) (left : List Level)
    (pending : Level → Option Copy)
    (raw : Text) : Publishing :=
  if !publishable raw then .resting
  else match bodyOf (entry draws current.serial) level.name current.discontinuity raw with
    | none => .resting
    | some body =>
      let pending := Function.update pending level (some ⟨raw,body⟩)
      match left with
      | [] => p.advance current pending renditions
      | next :: rest => .reading current next rest pending
/-- The publication loop goes on. An error ends the publication. -/
def System.publish (s : System) (p : Process) (fault : Bool) : System :=
  match p.publishing with
  | .resting =>
    if p.isStopped then s
    else match p.generation with
      | none => s
      | some current => s.withProcess (p.on (.reading current .low [.high] (fun _ => none)))
  | .reading current level left pending =>
    s.withProcess (p.on
      (if fault then .resting
      else match s.runs (entry draws current.serial) level with
        | none => .resting
        | some raw => p.take draws current level left pending raw))
  | .writing current level left pending copy =>
    s.withProcess (p.on (if fault then .resting else .moving current level left pending copy))
  | .moving current level left pending copy =>
    if fault then s.withProcess (p.on .resting)
    else (s.replace level copy.body).withProcess (p.on (.checking current level left pending copy))
  | .checking current level left pending copy =>
    if fault || p.generation ≠ some current || p.isStopped then s.withProcess (p.on .resting)
    else
      let next := p.published level copy.raw
      s.withProcess (next.on (next.advance current pending left))
  | .masterReading =>
    s.withProcess (p.on (if !fault && s.master = some masterText then .resting else .masterWriting))
  | .masterWriting => s.withProcess (p.on (if fault then .resting else .masterRenaming))
  | .masterRenaming =>
    if fault then s.withProcess (p.on .resting) else { s with master := some masterText }.withProcess (p.on .resting)

/-! ### Runs -/

/-- A published playlist names a directory. -/
def System.names (s : System) (name : Text) : Bool :=
  renditions.any (fun level => (s.published level).any (includes (lit "../" ++ name ++ ['/'])))
/-- The encoder of a generation replaced the playlist of one rendition. -/
def System.encode (s : System) (serial : Nat) (level : Level) (first count : Nat) (raw : Text) : System :=
  match s.encoders serial with
  | none => s
  | some encoder => { s with
      encoders := Function.update s.encoders serial
        (some { encoder with window := Function.update encoder.window level (some (first,count)) })
      runs := Function.update s.runs (entry draws serial)
        (Function.update (s.runs (entry draws serial)) level (some raw)) }

inductive Step where
  | start
  | work (fault : Bool)
  | publish (fault : Bool)
  | encode (serial : Nat) (level : Level) (first count : Nat) (raw : Text)
  /-- An old directory is removed; its age and the number that is kept decide when. -/
  | prune (name : Text)
  | stop
  /-- A stopped pipeline gives the directory up when both loops have ended. -/
  | finish
  | crash

def System.step (s : System) : Step → System
  | .start => if s.process.isNone then s.withProcess .initial else s
  | .work fault =>
    match s.process with
    | none => s
    | some p => s.work p fault
  | .publish fault =>
    match s.process with
    | none => s
    | some p => s.publish draws p fault
  | .encode serial level first count raw => s.encode draws serial level first count raw
  | .prune name =>
    match s.process with
    | none => s
    | some p =>
      match p.publishing with
      | .resting =>
        if (p.generation.map (fun g => entry draws g.serial)) = some name || s.names name then s
        else { s with runs := Function.update s.runs name (fun _ => none) }
      | _ => s
  | .stop =>
    match s.process with
    | none => s
    | some p => s.withProcess { p with isStopped := true }
  | .finish =>
    match s.process with
    | none => s
    | some p =>
      match p.working,p.publishing with
      | .failed,.resting | .stopped,.resting => if p.isStopped then { s with process := none } else s
      | _,_ => s
  | .crash => { s with process := none }
/-- Every step of a run passes a check in the state before it. -/
def System.passes (check : System → Step → Bool) : System → List Step → Bool
  | _,[] => true
  | s,step :: rest => check s step && System.passes check (s.step draws step) rest
/-- The contents of a rendition's published playlist, after every step of a run. -/
def System.contents (level : Level) : System → List Step → List Text
  | s,[] => (s.published level).toList
  | s,step :: rest => (s.published level).toList ++ System.contents level (s.step draws step) rest

end

/-! ### What the encoders do, and which publications are overtaken -/

/-- An encoder lists consecutive segments from its first number on, and neither end of
    its window goes back. -/
def lawful (s : System) : Step → Bool
  | .encode serial level first count raw =>
    decide (Encoded raw first count) &&
      (s.encoders serial).all (fun encoder =>
        match encoder.window level with
        | none => encoder.startNumber ≤ first
        | some (f,k) => f ≤ first && f + k ≤ first + count)
  | _ => true
/-- The position the encoder loop has, when it already looked at this rendition. -/
def Working.passed (level : Level) : Working → Option Position
  | .statting _ next left position | .reading _ next left position =>
    if level ∈ next :: left then none else some position
  | .placing _ position => some position
  | _ => none
def endOf (body : Text) : Nat := mediaSequence body + (uris body).length
/-- A playlist goes past a position: it lists a number from there on, or its
    discontinuity sequence is not behind. -/
def goesPast (discontinuity : Nat) (body : Text) (position : Position) : Bool :=
  position.nextSequence < endOf body || position.nextDiscontinuity ≤ discontinuity
/-- The next generation's position was taken before this publication. -/
def Process.overtaken (p : Process) (current : Generation) (level : Level) (body : Text) : Bool :=
  p.generation.any (fun g => g ≠ current && goesPast current.discontinuity body ⟨g.startNumber,g.discontinuity⟩) ||
    (p.working.passed level).any (goesPast current.discontinuity body)
def timely (s : System) : Step → Bool
  | .publish false =>
    s.process.all (fun p =>
      match p.publishing with
      | .moving current level _ _ copy => !p.overtaken current level copy.body
      | _ => true)
  | _ => true

end RelaySwarm.Broadcast
