import RelaySwarm.PublisherIdentity

/-!
The publisher's state file. Every call of `loadPublisherState` is a sequence of file
operations; a run interleaves the operations of any number of calls, and a call can end
between any two of them. A fresh identity is written under a temporary name, linked to
the path of the state and unlinked from the temporary name; every call reads what the
path names. The directory is private, and the path names nothing at first.
-/
namespace RelaySwarm.Publisher
open JsonText

/-! ### Files -/

structure Inode where
  content : List UInt8
  mode : Nat
  mtimeMs : Nat
  ctimeMs : Nat
/-- An inode is named after the call that made it, and so is its temporary name. -/
structure Disk where
  now : Nat
  inodes : Nat → Inode
  file : Option Nat
  temporary : Nat → Bool
structure Stat where
  ino : Nat
  nlink : Nat
  mode : Nat
  size : Nat
  mtimeMs : Nat
  ctimeMs : Nat
deriving DecidableEq

def Disk.nlink (disk : Disk) (ino : Nat) : Nat :=
  (if disk.file = some ino then 1 else 0) + (if disk.temporary ino then 1 else 0)
def Disk.stat (disk : Disk) (ino : Nat) : Stat :=
  let inode := disk.inodes ino
  ⟨ino,disk.nlink ino,inode.mode,inode.content.length,inode.mtimeMs,inode.ctimeMs⟩
def Disk.put (disk : Disk) (ino : Nat) (inode : Inode) : Disk :=
  { disk with inodes := Function.update disk.inodes ino inode }
def Disk.touch (disk : Disk) (ino : Nat) : Disk := disk.put ino { disk.inodes ino with ctimeMs := disk.now }

def maxStateBytes : Nat := 32 * 1024
def privateMode : Nat := 0o600
def privateFile (stat : Stat) : Except Failure Unit :=
  if stat.nlink ≠ 1 then .error .links
  else if stat.mode ≠ privateMode ∨ maxStateBytes < stat.size then .error .notPrivate
  else .ok ()

/-! ### Calls -/

/-- How far one reading of the state is. -/
inductive Reading where
  | opening
  | opened (ino : Nat)
  | loading (ino : Nat) (before : Stat) (bytes : List UInt8)
  | loaded (ino : Nat) (before : Stat) (bytes : List UInt8)
  | checked (before after : Stat) (bytes : List UInt8)
  | closing (result : Except Failure Identity)
/-- How far the publication of a fresh identity is. -/
inductive Making where
  | chmod
  | write (rest : List UInt8)
  | sync
  | close
  | link
  | unlink (linked : Bool)
  | openDirectory
  | syncDirectory
  | closeDirectory
/-- Where a call is; `own` once it has published an identity, or met one. -/
inductive Phase where
  | reading (own : Bool) (attempt : Nat) (step : Reading)
  | waiting (own : Bool) (attempt : Nat)
  | generating
  | making (identity : Identity) (step : Making)
  | returned (identity : Identity)
  | thrown (failure : Failure)
  | crashed

def maxAttempts : Nat := 10
/-- What follows when one reading has ended. -/
def settled (own : Bool) (attempt : Nat) : Except Failure Identity → Phase
  | .ok identity => .returned identity
  | .error failure =>
    if failure = .links ∧ attempt < maxAttempts then .waiting own attempt
    else if own then .thrown failure
    else if failure = .missing then .generating
    else .thrown (.unsafeLoad failure)
/-- The next operation of a reading; `count` bounds what one read gives. -/
def Reading.next (crypto : Crypto) (options : Options) (disk : Disk) (count : Nat) (own : Bool) (attempt : Nat) :
    Reading → Phase
  | .opening =>
    match disk.file with
    | none => settled own attempt (.error .missing)
    | some ino => .reading own attempt (.opened ino)
  | .opened ino =>
    let before := disk.stat ino
    match privateFile before with
    | .error failure => .reading own attempt (.closing (.error failure))
    | .ok _ => .reading own attempt (.loading ino before [])
  | .loading ino before bytes =>
    let chunk := ((disk.inodes ino).content.drop bytes.length).take (min (count + 1) (maxStateBytes + 1 - bytes.length))
    if chunk = [] then .reading own attempt (.loaded ino before bytes)
    else .reading own attempt (.loading ino before (bytes ++ chunk))
  | .loaded ino before bytes =>
    let after := disk.stat ino
    match privateFile after with
    | .error failure => .reading own attempt (.closing (.error failure))
    | .ok _ => .reading own attempt (.checked before after bytes)
  | .checked before after bytes =>
    match disk.file with
    | none => .reading own attempt (.closing (.error .missing))
    | some current =>
      if maxStateBytes < bytes.length ∨ before.ino ≠ after.ino ∨ before.size ≠ after.size ∨
        before.mtimeMs ≠ after.mtimeMs ∨
          before.ctimeMs ≠ after.ctimeMs ∨ current ≠ after.ino then .reading own attempt (.closing (.error .changed))
      else .reading own attempt (.closing (decodeState crypto options (utf8 bytes)))
  | .closing result => settled own attempt result

/-- What a call finds outside: how much one read or write moves, a fresh key, the time,
    and the mode that a new file gets. -/
structure Choice where
  count : Nat
  secretKey : { text : Text // hexText 64 text = true }
  seconds : { n : Int // n.natAbs < 2 ^ 53 }
  mode : Nat
def stateBytes (options : Options) (identity : Identity) : List UInt8 :=
  utf8Bytes (write (identity.value options.manifestPath))
/-- The next operation of a publication. -/
def Making.next (options : Options) (call : Nat) (count : Nat) (identity : Identity) (disk : Disk) :
    Making → Disk × Phase
  | .chmod => (disk.put call { disk.inodes call with mode := privateMode, ctimeMs := disk.now },
      .making identity (.write (stateBytes options identity)))
  | .write rest =>
    if rest = [] then (disk,.making identity .sync)
    else
      let inode := disk.inodes call
      (disk.put call { inode with
        content := inode.content ++ rest.take (count + 1), mtimeMs := disk.now, ctimeMs := disk.now },
        .making identity (.write (rest.drop (count + 1))))
  | .sync => (disk,.making identity .close)
  | .close => (disk,.making identity .link)
  | .link =>
    match disk.file with
    | some _ => (disk,.making identity (.unlink false))
    | none => ({ disk with file := some call }.touch call,.making identity (.unlink true))
  | .unlink _ =>
    ({ disk with temporary := Function.update disk.temporary call false }.touch call,.making identity .openDirectory)
  | .openDirectory => (disk,.making identity .syncDirectory)
  | .syncDirectory => (disk,.making identity .closeDirectory)
  | .closeDirectory => (disk,.reading true 0 .opening)
def Phase.next (crypto : Crypto) (options : Options) (call : Nat) (choice : Choice) (disk : Disk) : Phase → Disk × Phase
  | .reading own attempt step => (disk,step.next crypto options disk choice.count own attempt)
  | .waiting own attempt => (disk,.reading own (attempt + 1) .opening)
  | .generating =>
    ({ disk with temporary := Function.update disk.temporary call true }.put call ⟨[],choice.mode,disk.now,disk.now⟩,
      .making (newIdentity crypto options choice.secretKey choice.seconds) .chmod)
  | .making identity step => step.next options call choice.count identity disk
  | .returned identity => (disk,.returned identity)
  | .thrown failure => (disk,.thrown failure)
  | .crashed => (disk,.crashed)

/-! ### Runs -/

structure System where
  disk : Disk
  calls : Nat → Option Phase
inductive Step where
  | begin (call : Nat)
  | go (call : Nat) (choice : Choice)
  | crash (call : Nat)
  | tick (ms : Nat)
def Phase.ended : Phase → Bool
  | .returned _ => true
  | .thrown _ => true
  | .crashed => true
  | _ => false
def System.step (crypto : Crypto) (options : Options) (s : System) : Step → System
  | .begin call => if (s.calls call).isSome then s else { s with
    calls := Function.update s.calls call (some (.reading false 0 .opening)) }
  | .go call choice =>
    match s.calls call with
    | none => s
    | some phase =>
      let next := phase.next crypto options call choice s.disk
      ⟨next.1,Function.update s.calls call (some next.2)⟩
  | .crash call =>
    match s.calls call with
    | none => s
    | some phase => if phase.ended then s else { s with calls := Function.update s.calls call (some .crashed) }
  | .tick ms => { s with disk := { s.disk with now := s.disk.now + ms } }
def System.run (crypto : Crypto) (options : Options) (s : System) (steps : List Step) : System :=
  steps.foldl (System.step crypto options) s
def System.start (now : Nat) : System := ⟨⟨now,fun _ => ⟨[],0,0,0⟩,none,fun _ => false⟩,fun _ => none⟩

end RelaySwarm.Publisher
