import RelaySwarm.OrderedMap
import RelaySwarm.Planning
import Mathlib.Data.Finset.Basic

/-!
One schema 3 object fetched from several sources, as the scheduler runs it: it
issues ranged requests, verifies every piece against the commitment, bans a
holder that sends a bad piece, reassigns failed work, hands outstanding pieces
to origin at the floor and duplicates the last pieces of a lagging source. An
explicit peer-only transfer keeps uncovered work pending instead. Times are
milliseconds; estimates and projections are exact rationals; SHA-256 is a
parameter.
-/
namespace RelaySwarm.Transfers
open Pieces Planning

def maxPeerRequestPieces : Nat := 4
def maxPeerRequestBytes : Nat := 512 * 1024
def endgamePiecesLimit : Nat := 2
def silenceFloorMs : ℚ := 250
def rateWindowMs : Nat := 400
def minFlowMs : Nat := 150
/-- A flowing request that sends nothing new is checked again this often. -/
def stallCheckMs : Nat := 250
def flowPoints : Nat := 256

structure TransferConfig where
  maxHolders : Nat
  originReserveMs : ℚ

/-- What the shell must do. -/
inductive Command where
  | request (peer : Nat) (range : PieceRange)
  | fetchOrigin (range : PieceRange)
  | cancel (peer : Nat)
  | abandon (peer : Nat)
  | ban (peer : Nat)
  | deliver (object : List UInt8)
  | fail
deriving DecidableEq

abbrev Digest := List UInt8

structure Lane where
  estimate : Estimate
  queue : List PieceRange
  inFlight : List (PieceRange × Nat)
  /-- Projected absolute time this lane finishes its work. -/
  finishAt : ℚ
  retired : Bool
  /-- When the in-flight request's first progress came. -/
  firstByteAt : Option Nat
  /-- Time and bytes received since, latest last. -/
  flow : List (Nat × Nat)
  /-- When a tick last judged the request. -/
  checkedAt : Nat

def Lane.new (estimate : Estimate) (now : Nat) : Lane :=
  ⟨estimate,[],[],now,false,none,[],now⟩
def Lane.work (lane : Lane) : List PieceRange := lane.inFlight.map (·.1) ++ lane.queue
/-- The piece is queued or in flight on this live lane. -/
def Lane.holds (lane : Lane) (index : Nat) : Prop :=
  lane.retired = false ∧ ∃ range ∈ lane.work, range.start ≤ index ∧ index < range.stop
instance (lane : Lane) (index : Nat) : Decidable (lane.holds index) := inferInstanceAs (Decidable (_ ∧ _))
/-- Nothing is queued or in flight. -/
def Lane.idle (lane : Lane) : Prop := lane.inFlight = [] ∧ lane.queue = []
instance (lane : Lane) : Decidable lane.idle := inferInstanceAs (Decidable (_ ∧ _))

/-- The lane after ranges of its queue were sent. -/
def Lane.sending (lane : Lane) (now : Nat) (sent left : List PieceRange) : Lane :=
  let lane := { lane with queue := left, inFlight := lane.inFlight ++ sent.map (fun range => (range,now)) }
  if sent = [] then lane else { lane with firstByteAt := none, flow := [], checkedAt := now }

/-- The lane after bytes of its request came; the oldest flow point makes room. -/
def Lane.progressed (lane : Lane) (now received : Nat) : Lane :=
  let flow := lane.flow ++ [(now,received)]
  { lane with
    firstByteAt := some (lane.firstByteAt.getD now)
    flow := if flowPoints < flow.length then flow.tail else flow }

/-- The lane after its request for a range was answered. -/
def Lane.answered (lane : Lane) (range : PieceRange) : Lane :=
  { lane with inFlight := lane.inFlight.eraseP (·.1 = range) }

structure Transfer where
  config : TransferConfig
  peerOnly : Bool
  exclusiveOrigin : Bool
  originStarted : Bool
  started : Bool
  size : Nat
  pieceSize : Nat
  hashes : List Digest
  whole : Digest
  deadline : Nat
  data : List UInt8
  verified : List Bool
  lanes : OrderedMap Source Lane
  probePeers : Finset Source
  probeAvailable : Finset Source
  /-- Unassigned, unverified indices of a peer-only transfer, ascending. -/
  peerPending : List Nat
  sharedFirstByteMs : Option ℚ
  sharedRate : Option ℚ
  /-- Pieces already duplicated by the endgame. -/
  duplicated : Finset Nat
  floorReached : Bool
  /-- The latest plan was projected past the origin floor. -/
  late : Bool
  finished : Bool
  commands : List Command

private def nibble (c : Char) : Option Nat :=
  if '0' ≤ c ∧ c ≤ '9' then some (c.toNat - 48)
  else if 'a' ≤ c ∧ c ≤ 'f' then some (c.toNat - 87)
  else if 'A' ≤ c ∧ c ≤ 'F' then some (c.toNat - 55)
  else none
private def hexBytes : List Char → Option (List UInt8)
  | [] => some []
  | high :: low :: rest => do
    let a ← nibble high
    let b ← nibble low
    let bytes ← hexBytes rest
    return UInt8.ofNat (a * 16 + b) :: bytes
  | [_] => none
/-- A 32-byte digest in hex. -/
def decode (hexDigest : String) : Option Digest :=
  (hexBytes hexDigest.toList).filter (·.length = 32)

namespace Transfer

/-- A transfer of an object committed to the digests, due at the deadline; `none`
    when the piece list does not fit the size. -/
def new (config : TransferConfig) (size : Nat) (sha256 : String) (pieces : List String) (deadline : Nat) :
    Option Transfer := do
  let count ← pieceCount size
  if pieces.length ≠ count then none
  else
    let hashes ← pieces.mapM decode
    let whole ← decode sha256
    return {
      config, peerOnly := false, exclusiveOrigin := false, originStarted := false, started := false, size,
      pieceSize := commitmentPieceSize size, hashes, whole, deadline, data := List.replicate size 0,
      verified := List.replicate count false, lanes := .empty, probePeers := ∅, probeAvailable := ∅,
      peerPending := [], sharedFirstByteMs := none, sharedRate := none, duplicated := ∅, floorReached := false,
      late := false, finished := false, commands := [] }
/-- A bounded peer arm alongside a separate whole-object request. -/
def newPeerOnly (config : TransferConfig) (size : Nat) (sha256 : String) (pieces : List String) (deadline : Nat) :
    Option Transfer :=
  (new config size sha256 pieces deadline).map (fun t => { t with peerOnly := true })
/-- Before starting: only queued, unissued origin work moves to peers. -/
def withExclusiveOrigin (t : Transfer) : Option Transfer :=
  if t.peerOnly ∨ t.started ∨ t.finished then none else some { t with exclusiveOrigin := true }

def drainCommands (t : Transfer) : List Command × Transfer := (t.commands,{ t with commands := [] })

def isVerified (t : Transfer) (index : Nat) : Bool := t.verified.getD index false
/-- Bytes verified so far, each piece counted once. -/
def verifiedBytes (t : Transfer) : Nat :=
  (((List.range t.verified.length).filter t.isVerified).map (pieceBytes t.size t.pieceSize)).sum
def floorAt (t : Transfer) : Nat := t.deadline - ⌊max t.config.originReserveMs 0⌋.toNat
def pieceRangeBytes (t : Transfer) (range : PieceRange) : Nat × Nat :=
  (range.start * t.pieceSize,min (range.stop * t.pieceSize) t.size)
def unverified (t : Transfer) (range : PieceRange) : List Nat :=
  range.indices.filter (fun index => !t.isVerified index)
/-- The piece is verified, or queued or in flight on a live lane. -/
def covered (t : Transfer) (index : Nat) : Prop :=
  t.isVerified index = true ∨ ∃ lane ∈ t.lanes.values, lane.holds index
instance (t : Transfer) (index : Nat) : Decidable (t.covered index) := inferInstanceAs (Decidable (_ ∨ _))
def inFlightElsewhere (t : Transfer) (index : Nat) (except : Source) : Prop :=
  ∃ entry ∈ t.lanes.entries, entry.1 ≠ except ∧ entry.2.holds index
instance (t : Transfer) (index : Nat) (except : Source) : Decidable (t.inFlightElsewhere index except) :=
  inferInstanceAs (Decidable (∃ _ ∈ _, _))

/-- Unverified pieces the endgame may still duplicate. -/
def endgamePieces (t : Transfer) : List Nat :=
  let left := (List.range t.verified.length).filter (fun index => !t.isVerified index)
  if t.exclusiveOrigin ∨ t.floorReached ∨ endgamePiecesLimit < left.length then []
  else left.filter (fun index => index ∉ t.duplicated)

/-- No first byte by then abandons the request: three recent first-byte times and
    at least the silence floor, or later while the range could still finish. -/
def silenceAt (t : Transfer) (source : Source) (sent : Nat) (range : PieceRange) : Option ℚ :=
  match (((t.lanes.get? source).bind (fun lane => nonNegative lane.estimate.firstByteMs)).or
      (nonNegative t.sharedFirstByteMs)) with
  | none => none
  | some firstByte =>
    let bytes := t.pieceRangeBytes range
    let limit := max silenceFloorMs (firstByte * 3)
    match positive t.sharedRate with
    | none => some (sent + limit)
    | some best => some (sent + max limit (t.floorAt - ((bytes.2 : ℚ) - bytes.1) / best - sent))
/-- When a peer's in-flight request should next be judged. -/
def watchAt (t : Transfer) (source : Source) : Option Nat :=
  if t.peerOnly then none
  else
    match t.lanes.get? source with
    | none => none
    | some lane =>
      if source.isPeer = false ∨ lane.retired ∨ t.floorReached then none
      else
        match lane.inFlight.head? with
        | none => none
        | some (range,sent) =>
          match lane.firstByteAt with
          | none => (t.silenceAt source sent range).map (fun moment => ⌈moment⌉.toNat)
          | some _ => some (max ((lane.flow.getLast?.map (·.1)).getD sent) lane.checkedAt + stallCheckMs)
/-- The in-flight request cannot finish its range by the floor, or it has been
    silent too long. -/
def hopeless (t : Transfer) (now : Nat) (source : Source) : Bool :=
  if t.peerOnly then false
  else
    match t.lanes.get? source with
    | none => false
    | some lane =>
      match lane.inFlight.head? with
      | none => false
      | some (range,sent) =>
        if lane.retired ∨ source.isPeer = false then false
        else
          match lane.firstByteAt with
          | none => ((t.silenceAt source sent range).map (fun moment => decide (moment ≤ (now : ℚ)))).getD false
          | some first =>
            if now - sent < 2 * (first - sent) then false
            else
              match lane.flow.getLast? with
              | none => false
              | some (_,received) =>
                let start := ((lane.flow.reverse.find? (fun point => point.1 + rateWindowMs ≤ now)).or
                  lane.flow.head?).getD (now,received)
                let span := now - start.1
                if span < minFlowMs then false
                else
                  let recent : ℚ := (received - start.2 : Nat) / span
                  let rate := max (2 * recent) ((positive t.sharedRate).getD 0)
                  let bytes := t.pieceRangeBytes range
                  let left : ℚ := (bytes.2 : ℚ) - bytes.1 - received
                  decide (rate ≤ 0 ∨ (t.floorAt : ℚ) < now + max left 0 / rate)

def push (t : Transfer) (command : Command) : Transfer := { t with commands := t.commands ++ [command] }

/-- The cancels of every peer still sending. -/
def cancels (t : Transfer) : List Command :=
  t.lanes.entries.filterMap (fun entry => match entry.1 with
    | .peer peer => if entry.2.inFlight = [] then none else some (.cancel peer)
    | .origin => none)
/-- End the transfer: cancel every peer still sending and clear the lanes. -/
def closeOut (t : Transfer) : Transfer :=
  { t with
    finished := true
    peerPending := []
    commands := t.commands ++ t.cancels
    lanes := t.lanes.mapValues (fun _ lane => { lane with inFlight := [], queue := [] }) }
def fail (t : Transfer) : Transfer := t.closeOut.push .fail

/-- How many pieces one range may carry: origin's prefix, or the cap of a peer. -/
def issueCap (source : Source) (peerPieceCap sourcePrefix : Nat) : Nat :=
  if source = .origin then sourcePrefix else peerPieceCap
/-- The loop of `issue` over a queue: the ranges sent and the queue left. A
    clipped range ends it, for the lane is then busy or the prefix used up. -/
def sendQueue (exclusive : Bool) (source : Source) (peerPieceCap : Nat) :
    Bool → Nat → List PieceRange → List PieceRange × List PieceRange
  | _,_,[] => ([],[])
  | idle,sourcePrefix,range :: rest =>
    if source.isPeer ∧ idle = false then ([],range :: rest)
    else if exclusive ∧ source = .origin ∧ sourcePrefix = 0 then ([],range :: rest)
    else
      let stop := min (range.start + issueCap source peerPieceCap sourcePrefix) range.stop
      if (source.isPeer ∨ exclusive) ∧ stop < range.stop then ([⟨range.start,stop⟩],⟨stop,range.stop⟩ :: rest)
      else
        let later := sendQueue exclusive source peerPieceCap false (sourcePrefix - (range.stop - range.start)) rest
        (range :: later.1,later.2)

def requestOf (source : Source) (range : PieceRange) : Command :=
  match source with
  | .peer peer => .request peer range
  | .origin => .fetchOrigin range

/-- Whether origin keeps back a tail: its first issue, while a probe is in flight. -/
def holdTail (t : Transfer) (source : Source) : Prop :=
  t.exclusiveOrigin = true ∧ source = .origin ∧ t.originStarted = false ∧ t.floorReached = false ∧
    ∃ probe ∈ t.probePeers, (t.lanes.get? probe).any (fun lane => !lane.retired && !lane.inFlight.isEmpty) = true
instance (t : Transfer) (source : Source) : Decidable (t.holdTail source) :=
  inferInstanceAs (Decidable (_ ∧ _ ∧ _ ∧ _ ∧ _))

/-- Send queued work: one bounded range to a peer, all of it to origin. -/
def issue (t : Transfer) (now : Nat) (source : Source) : Transfer :=
  let peerPieceCap := min (max (maxPeerRequestBytes / t.pieceSize) 1) maxPeerRequestPieces
  let originTailCap := min (maxPeerRequestBytes / t.pieceSize) maxPeerRequestPieces
  match t.lanes.get? source with
  | none => t
  | some lane =>
    if t.exclusiveOrigin ∧ source = .origin ∧ lane.inFlight ≠ [] then t
    else
      let queued := (lane.queue.map (fun range => range.stop - range.start)).sum
      let sourcePrefix := if t.holdTail source then queued - min originTailCap (queued - 1) else queued
      let sent := sendQueue t.exclusiveOrigin source peerPieceCap (lane.inFlight.isEmpty) sourcePrefix lane.queue
      { t with
        originStarted := t.originStarted || (source = .origin && 0 < queued)
        lanes := t.lanes.modify source (fun lane => lane.sending now sent.1 sent.2)
        commands := t.commands ++ sent.1.map (requestOf source) }

/-- The lane of a source, opened when there is none. -/
def openLane (t : Transfer) (now : Nat) (estimate : Estimate) : Transfer :=
  { t with lanes := t.lanes.orInsert estimate.source (Lane.new estimate now) }
/-- More ranges at the end of a lane's queue, and its new projected finish. -/
def extendQueue (t : Transfer) (source : Source) (ranges : List PieceRange) (finishAt : ℚ → ℚ) : Transfer :=
  { t with lanes := t.lanes.modify source (fun lane =>
      { lane with queue := lane.queue ++ ranges, finishAt := finishAt lane.finishAt }) }

def queueOrigin (t : Transfer) (now : Nat) (range : PieceRange) : Transfer :=
  if t.peerOnly then t.fail
  else ((t.openLane now ⟨.origin,none,none⟩).extendQueue .origin [range] id).issue now .origin

def activePeerOnlyHolders (t : Transfer) : Nat :=
  (t.lanes.values.filter (fun lane => lane.retired = false ∧ ¬ lane.idle)).length

/-- The fastest entry; of equal ones the first. -/
def fastest (rate : Lane → ℚ) : List (Source × Lane) → Option (Source × Lane)
  | [] => none
  | entry :: rest =>
    match fastest rate rest with
    | none => some entry
    | some best => if rate entry.2 < rate best.2 then some best else some entry
def peerOnlyEndgameSource (t : Transfer) : Option Source :=
  if max t.config.maxHolders 1 ≤ t.activePeerOnlyHolders then none
  else (fastest (fun lane => (positive lane.estimate.rate).getD 0) (t.lanes.entries.filter (fun entry =>
    entry.2.retired = false ∧ entry.2.idle ∧ entry.1 ∉ t.probePeers ∧
      (positive entry.2.estimate.rate).isSome))).map (·.1)

def projection (now : Nat) (assignment : Assignment) : ℚ := now + max assignment.projectedMs 0

/-- One planned assignment of a refill: its pieces are no longer pending. -/
def refillAssignment (now : Nat) (t : Transfer) (assignment : Assignment) : Transfer :=
  match t.lanes.get? assignment.source with
  | none => t
  | some _ =>
    let t := t.extendQueue assignment.source assignment.ranges (fun _ => projection now assignment)
    { t with peerPending := t.peerPending.filter (fun index => index ∉ indices assignment.ranges) }.issue now
      assignment.source
/-- The lowest pending piece goes to a probe, whose allowance it is. -/
def refillProbe (now : Nat) (t : Transfer) (source : Source) (index : Nat) (pending : List Nat) : Transfer :=
  let estimate := ((t.lanes.get? source).map (·.estimate)).getD ⟨source,none,none⟩
  let first := ((nonNegative estimate.firstByteMs).or (nonNegative t.sharedFirstByteMs)).getD 0
  let rate := ((positive estimate.rate).or (positive t.sharedRate)).getD minRate
  let projected := first + pieceBytes t.size t.pieceSize index / rate
  let allowed := { t with
    peerPending := pending
    probeAvailable := t.probeAvailable.erase source
    late := t.late || decide (((t.floorAt : ℚ) - now) < projected) }
  (allowed.extendQueue source [⟨index,index+1⟩] (fun _ => now + projected)).issue now source
/-- One pending piece to each probe, lowest first, while any are pending. -/
def refillProbes (now : Nat) : List Source → Transfer → Transfer
  | [],t => t
  | source :: rest,t =>
    match t.peerPending with
    | [] => t
    | index :: pending => refillProbes now rest (refillProbe now t source index pending)
/-- Idle measured holders take a planned share of the pending pieces. -/
def refillIdle (t : Transfer) (now slots : Nat) : Transfer :=
  let idle := (t.lanes.entries.filter (fun entry => entry.2.retired = false ∧ entry.2.idle ∧
    entry.1 ∉ t.probePeers ∧ (positive entry.2.estimate.rate).isSome)).map (·.2.estimate)
  if idle = [] then t
  else
    let planned := plan {
      size := t.size, needed := t.peerPending, peers := idle, origin := none,
      sharedFirstByteMs := t.sharedFirstByteMs, sharedRate := t.sharedRate,
      availableMs := (t.floorAt : ℚ) - now, maxHolders := slots }
    planned.assignments.foldl (refillAssignment now) { t with late := planned.late }
/-- Idle holders that still have their probe allowance. -/
def idleProbes (t : Transfer) : List Source :=
  (t.lanes.entries.filter (fun entry => entry.2.retired = false ∧ entry.2.idle ∧
    entry.1 ∈ t.probeAvailable)).map (·.1)
def holderSlots (t : Transfer) : Nat := max t.config.maxHolders 1 - t.activePeerOnlyHolders
/-- Pending pieces that nothing covers stay pending. -/
def prunePending (t : Transfer) : Transfer :=
  { t with peerPending := t.peerPending.filter (fun index => ¬ t.covered index) }
/-- Refill only idle holders; the rest stays pending. -/
def refillPeerOnly (t : Transfer) (now : Nat) : Transfer :=
  if t.finished ∨ t.started = false then t
  else if t.floorAt ≤ now then { t with floorReached := true }.fail
  else
    let t := t.prunePending
    if ∀ lane ∈ t.lanes.values, lane.retired = true then t.fail
    else if t.holderSlots = 0 ∨ t.peerPending = [] then t
    else
      let t := t.refillIdle now t.holderSlots
      refillProbes now (t.idleProbes.take t.holderSlots) t

/-- The peers that can take work; a busy one starts on new work only after what
    it already has. -/
def assignable (t : Transfer) (now : Nat) : List Estimate :=
  (t.lanes.entries.filter (fun entry => entry.1.isPeer ∧ entry.2.retired = false)).map (fun entry =>
    let estimate := entry.2.estimate
    let backlog : ℚ := max (entry.2.finishAt - (now : ℚ)) 0
    if 0 < backlog then
      let firstByte := ((nonNegative estimate.firstByteMs).or (nonNegative t.sharedFirstByteMs)).getD 0
      { estimate with firstByteMs := some (max firstByte backlog) }
    else estimate)
/-- One piece to each probe that still has its allowance: the assignments, the
    pieces left and the allowances left. -/
def assignProbes (t : Transfer) (input : PlanInput) :
    List Estimate → Nat → List Nat → Finset Source → List Assignment × List Nat × Finset Source
  | [],_,needed,available => ([],needed,available)
  | estimate :: rest,slots,needed,available =>
    match needed with
    | [] => ([],[],available)
    | index :: later =>
      if slots = 0 then ([],index :: later,available)
      else if estimate.source ∈ t.probePeers ∧ estimate.source ∈ available then
        let bytes := pieceBytes t.size t.pieceSize index
        let projected := match resolve [estimate] input with
          | [] => 0
          | timed :: _ => timed.firstByte + bytes / timed.rate
        let others := assignProbes t input rest (slots - 1) later (available.erase estimate.source)
        (⟨estimate.source,[⟨index,index+1⟩],bytes,projected⟩ :: others.1,others.2.1,others.2.2)
      else assignProbes t input rest slots (index :: later) available
/-- The plan of an assignment, and the probe allowances left. -/
def assignPlan (t : Transfer) (now : Nat) (needed : List Nat) : Plan × Finset Source :=
  let peers := t.assignable now
  let input : PlanInput := {
    size := t.size, needed, peers, origin := (t.lanes.get? .origin).map (·.estimate),
    sharedFirstByteMs := t.sharedFirstByteMs, sharedRate := t.sharedRate,
    availableMs := (t.floorAt : ℚ) - now, maxHolders := t.config.maxHolders }
  if t.probePeers = ∅ then (plan input,t.probeAvailable)
  else
    let holderLimit := max input.maxHolders 1
    let probed := assignProbes t input peers holderLimit needed t.probeAvailable
    let slots := holderLimit - probed.1.length
    let normal := if slots = 0 then [] else peers.filter (fun estimate => estimate.source ∉ t.probePeers)
    let tail := plan { input with needed := probed.2.1, peers := normal, maxHolders := slots }
    (planOf (probed.1 ++ tail.assignments) input.availableMs,probed.2.2)

/-- The allowances left by a plan, and whether it is late. -/
def recordPlan (t : Transfer) (planned : Plan × Finset Source) : Transfer :=
  { t with probeAvailable := planned.2, late := planned.1.late }
/-- One planned assignment; a peer's projection already includes its backlog. -/
def takeAssignment (now : Nat) (t : Transfer) (assignment : Assignment) : Transfer :=
  ((t.openLane now ⟨assignment.source,none,none⟩).extendQueue assignment.source assignment.ranges
    (fun finishAt => max finishAt (projection now assignment))).issue now assignment.source

/-- An uncovered index joins the pending ones. -/
def pend (t : Transfer) (index : Nat) : Transfer :=
  if index < t.verified.length ∧ ¬ t.covered index ∧ index ∉ t.peerPending then
    { t with peerPending := t.peerPending.orderedInsert (· ≤ ·) index }
  else t

/-- Assign pieces across the sources that can take more work. -/
def assign (t : Transfer) (now : Nat) (needed : List Nat) : Transfer :=
  if t.peerOnly then (needed.foldl pend t).refillPeerOnly now
  else if needed = [] ∨ t.finished then t
  else
    match needed with
    | [index] =>
      if t.exclusiveOrigin ∧ t.originStarted = false then t.queueOrigin now ⟨index,index+1⟩
      else assignMany t now needed
    | _ => assignMany t now needed
where
  assignMany (t : Transfer) (now : Nat) (needed : List Nat) : Transfer :=
    let planned := t.assignPlan now needed
    -- No peer can take it: origin always can.
    let assignments := if planned.1.assignments = [] then [⟨.origin,runs needed,0,0⟩] else planned.1.assignments
    assignments.foldl (takeAssignment now) (t.recordPlan planned)

/-- Take a lane out of this object; its unfinished pieces, ascending. Pieces in
    flight elsewhere need no second copy. -/
def retire (t : Transfer) (source : Source) : Transfer × List Nat :=
  match t.lanes.get? source with
  | none => (t,[])
  | some lane =>
    let t := { t with lanes := t.lanes.modify source (fun lane =>
      { lane with retired := true, inFlight := [], queue := [] }) }
    let pieces := ((lane.work.flatMap t.unverified).insertionSort (· ≤ ·)).dedup
    (t,pieces.filter (fun index => ¬ t.inFlightElsewhere index source))
/-- The unfinished pieces of a retired lane that nothing covers are assigned. -/
def reassign (t : Transfer) (now : Nat) (source : Source) : Transfer :=
  let retired := t.retire source
  retired.1.assign now (retired.2.filter (fun index => ¬ retired.1.covered index))

/-- Live peer lanes, in order. -/
def livePeers (t : Transfer) : List (Source × Lane) :=
  t.lanes.entries.filter (fun entry => entry.1.isPeer ∧ entry.2.retired = false)
/-- A measured peer without work, past its probe. -/
def spare (t : Transfer) (lane : Lane) : Prop :=
  lane.estimate.source ∉ t.probePeers ∧ lane.idle ∧ (positive lane.estimate.rate).isSome
instance (t : Transfer) (lane : Lane) : Decidable (t.spare lane) := inferInstanceAs (Decidable (_ ∧ _ ∧ _))

/-- Origin's pieces not yet verified, ascending; in exclusive mode only those its
    requests have not begun. -/
def owed (t : Transfer) (origin : Lane) : List Nat :=
  let ranges := if t.exclusiveOrigin then origin.queue else origin.work
  (((indices ranges).filter (fun index => !t.isVerified index)).insertionSort (· ≤ ·)).dedup
/-- Claimed pieces leave origin's queue. -/
def claimOrigin (t : Transfer) (claimed : List Nat) : Transfer :=
  { t with lanes := t.lanes.modify .origin (fun lane =>
      { lane with queue := runs ((indices lane.queue).filter (fun index => index ∉ claimed)) }) }
/-- One assignment of origin's pieces to an idle peer. -/
def moveAssignment (now : Nat) (t : Transfer) (assignment : Assignment) : Transfer :=
  match t.lanes.get? assignment.source with
  | none => t
  | some _ => (t.extendQueue assignment.source assignment.ranges
      (fun finishAt => max finishAt (projection now assignment))).issue now assignment.source
/-- The time peers have to finish pieces of origin before origin would. -/
def beatOriginMs (t : Transfer) (now : Nat) (origin : Lane) : ℚ :=
  (if (now : ℚ) < origin.finishAt then min origin.finishAt (t.floorAt : ℚ) else (t.floorAt : ℚ)) - now
/-- The plan by which idle measured peers take pieces of origin that they can
    finish before it is projected to, or by the floor once it is behind. -/
def movedPlan (t : Transfer) (now : Nat) (origin : Lane) : Option Plan :=
  let owed := t.owed origin
  let pending := owed.filter (fun index => ∀ entry ∈ t.livePeers, ¬ entry.2.holds index)
  let idle := (t.livePeers.filter (fun entry => t.spare entry.2)).map (·.2.estimate)
  if pending = [] ∨ idle = [] then none
  else
    -- Busy peers not yet working on origin's pieces will be idle soon: they
    -- keep their share.
    let busy := (t.livePeers.filter (fun entry => ¬ t.spare entry.2 ∧
      ∀ index ∈ owed, ¬ entry.2.holds index)).length
    let share := (pending.length * idle.length + (idle.length + busy) - 1) / (idle.length + busy)
    let availableMs := t.beatOriginMs now origin
    if availableMs ≤ 0 then none
    else
      let input : PlanInput := {
        size := t.size, needed := pending, peers := idle, origin := none,
        sharedFirstByteMs := t.sharedFirstByteMs, sharedRate := t.sharedRate,
        availableMs, maxHolders := idle.length }
      let peers := resolve idle input
      let capacity := (peers.map (fun peer =>
        ⌊max (availableMs - peer.firstByte) 0 * peer.rate / t.pieceSize⌋.toNat)).sum
      let take := min capacity share
      if take = 0 then none
      else some (split { input with needed := pending.drop (pending.length - take) } peers)
/-- Rule 9: origin's pieces not yet delivered go to idle measured peers. Origin's
    request keeps running and the first verified copy wins. -/
def rebalanceOrigin (t : Transfer) (now : Nat) : Transfer :=
  if t.finished ∨ t.floorReached then t
  else
    match t.lanes.get? .origin with
    | none => t
    | some origin =>
      match t.movedPlan now origin with
      | none => t
      | some planned => planned.assignments.foldl (moveAssignment now)
          (if t.exclusiveOrigin then t.claimOrigin (dealt planned.assignments) else t)

/-- Cancel a hopeless request and move its pieces to the other sources. -/
def abandon (t : Transfer) (now : Nat) (source : Source) : Transfer :=
  match source with
  | .origin => t
  | .peer peer => (((t.push (.abandon peer)).reassign now source).rebalanceOrigin now)

/-- `none`, timeout, close or a wrong length from a source. -/
def failed (t : Transfer) (now : Nat) (source : Source) : Transfer :=
  if t.finished then t
  else if source = .origin then if t.peerOnly then t else t.fail
  else
    match t.lanes.get? source with
    | none => t
    | some lane => if lane.retired then t else (t.reassign now source).rebalanceOrigin now

/-- A holder that sent a bad piece is banned; origin bytes that fail the
    commitment cannot be repaired here. -/
def badPiece (t : Transfer) (now : Nat) (source : Source) : Transfer :=
  match source with
  | .origin => t.fail
  | .peer peer =>
    let retired := (t.push (.ban peer)).retire source
    let lost := (List.range t.verified.length).filter (fun index =>
      ¬ retired.1.covered index ∧ index ∉ retired.2)
    retired.1.assign now ((retired.2 ++ lost).insertionSort (· ≤ ·))

/-- Tell a peer to stop; origin has no cancel. -/
def cancelSource (t : Transfer) (source : Source) : Transfer :=
  match source with
  | .peer peer => t.push (.cancel peer)
  | .origin => t
def dropLane (now : Nat) (t : Transfer) (source : Source) : Transfer := (t.cancelSource source).reassign now source
/-- Cancel peers whose in-flight range another source has now verified. Origin
    has no cancel, so its fetch keeps running. -/
def dropRedundant (t : Transfer) (now : Nat) (winner : Source) : Transfer :=
  let redundant := (t.lanes.entries.filter (fun entry => entry.1 ≠ winner ∧ entry.1.isPeer ∧
    entry.2.retired = false ∧ entry.2.inFlight ≠ [] ∧
      ∀ sent ∈ entry.2.inFlight, ∀ index ∈ sent.1.indices, t.isVerified index)).map (·.1)
  redundant.foldl (dropLane now) t

/-- An untested peer's first verified request gives it an estimate for the rest
    of this object. -/
def measure (t : Transfer) (now : Nat) (source : Source) (sent : Nat) (firstByteAt : Option Nat) (bytes : Nat) :
    Transfer :=
  match t.lanes.get? source with
  | none => t
  | some lane =>
    if source.isPeer = false ∨ (positive lane.estimate.rate).isSome then t
    else
      let firstByte : ℚ := match firstByteAt with
        | none => (nonNegative t.sharedFirstByteMs).getD 0
        | some moment => (moment - sent : Nat)
      let streaming := max ((now : ℚ) - sent - firstByte) 1
      { t with lanes := t.lanes.modify source (fun lane =>
          { lane with
            estimate := { lane.estimate with firstByteMs := some firstByte, rate := some (bytes / streaming) } }) }

section
variable (sha256 : List UInt8 → Digest)

def finish (t : Transfer) : Transfer :=
  if sha256 t.data ≠ t.whole then t.fail
  else { t.closeOut.push (.deliver t.data) with data := [] }

/-- A transfer with what the check of one response found so far. -/
structure Checked where
  transfer : Transfer
  bad : Bool
  fresh : Bool
/-- One piece of a response is written when it matches its commitment; a piece
    already verified is left alone. -/
def checkPiece (bytes : List UInt8) (start : Nat) (c : Checked) (index : Nat) : Checked :=
  let moment := c.transfer.pieceRangeBytes ⟨index,index+1⟩
  let piece := (bytes.drop (moment.1 - start)).take (moment.2 - moment.1)
  if c.transfer.isVerified index then c
  else if c.transfer.hashes[index]? = some (sha256 piece) then
    { c with
      transfer := { c.transfer with
        data := c.transfer.data.take moment.1 ++ piece ++ c.transfer.data.drop moment.2
        verified := c.transfer.verified.set index true }
      fresh := true }
  else { c with bad := true }

/-- A peer-only or a mixed transfer looks for more work after a delivery. -/
def refill (t : Transfer) (now : Nat) : Transfer :=
  if t.peerOnly then t.refillPeerOnly now else t.rebalanceOrigin now

/-- A source that verified a piece is no probe any more. -/
def endProbe (t : Transfer) (source : Source) : Transfer :=
  { t with probePeers := t.probePeers.erase source, probeAvailable := t.probeAvailable.erase source }
/-- A response whose pieces all match: a fresh piece ends the probe of its source,
    and the transfer finishes once every piece is verified. -/
def accept (c : Checked) (now : Nat) (source : Source) (sent : Nat) (firstByteAt : Option Nat) (bytes : Nat) :
    Transfer :=
  let t := if c.fresh then c.transfer.endProbe source else c.transfer
  let t := (t.measure now source sent firstByteAt bytes).dropRedundant now source
  if t.verified.all id then t.finish sha256 else (t.issue now source).refill now

/-- The endgame of rule 4: with at most two pieces left, a source behind its
    projection has them duplicated to the fastest idle source. -/
def endgame (t : Transfer) (now : Nat) : Transfer :=
  let pieces := t.endgamePieces
  if pieces = [] ∨ ∀ lane ∈ t.lanes.values, lane.inFlight = [] ∨ (∀ index ∈ pieces, ¬ lane.holds index) ∨
      (now : ℚ) < lane.finishAt then t
  else
    let idle := if t.peerOnly then t.peerOnlyEndgameSource
      else some ((fastest (fun lane => (positive lane.estimate.rate).getD 0) (t.livePeers.filter (fun entry =>
        entry.2.idle))).map (·.1) |>.getD .origin)
    match idle with
    | none => t
    | some idle =>
      (runs pieces).foldl (fun t range => match idle with
          | .origin => t.queueOrigin now range
          | .peer _ => (t.extendQueue idle [range] id).issue now idle)
        { t with duplicated := t.duplicated ∪ pieces.toFinset }

def lateLanes (t : Transfer) : List Source := (t.livePeers.filter (fun entry => ¬ entry.2.idle)).map (·.1)
/-- Cancel one more peer and collect its unfinished pieces. -/
def cancelLane (state : Transfer × List Nat) (source : Source) : Transfer × List Nat :=
  let retired := (state.1.cancelSource source).retire source
  (retired.1,state.2 ++ retired.2)
/-- Rule 6: no peer may hold a piece past the origin floor. -/
def reachFloor (t : Transfer) (now : Nat) : Transfer :=
  let t := { t with floorReached := true }
  let retired := t.lateLanes.foldl cancelLane (t,[])
  let pieces := ((retired.2.filter (fun index => ¬ retired.1.covered index)).insertionSort (· ≤ ·)).dedup
  (runs pieces).foldl (fun t range => t.queueOrigin now range) retired.1

/-- The watched requests are judged one after another; what follows is skipped
    once the transfer is finished. -/
def judge (now : Nat) : List Source → Transfer → Transfer
  | [],t => (t.endgame now).rebalanceOrigin now
  | source :: rest,t =>
    if t.finished then t
    else if t.hopeless now source then judge now rest (t.abandon now source)
    else judge now rest { t with lanes := t.lanes.modify source (fun lane => { lane with checkedAt := now }) }

def tick (t : Transfer) (now : Nat) : Transfer :=
  if t.finished then t
  else if t.peerOnly then
    if t.floorAt ≤ now then { t with floorReached := true }.fail else t.endgame now
  else if t.floorReached = false ∧ t.floorAt ≤ now then t.reachFloor now
  else judge now (t.lanes.keys.filter (fun source => (t.watchAt source).isSome)) t

/-- A ranged response. Bytes for a range not in flight there are ignored, and a
    wrong length fails the source with this range still in flight. -/
def delivered (t : Transfer) (now : Nat) (source : Source) (range : PieceRange) (bytes : List UInt8) : Transfer :=
  if t.peerOnly ∧ t.floorAt ≤ now then t.tick now
  else if t.finished then t
  else
    match t.lanes.get? source with
    | none => t
    | some lane =>
      match lane.inFlight.find? (·.1 = range) with
      | none => t
      | some (_,sent) =>
        let moment := t.pieceRangeBytes range
        if bytes.length ≠ moment.2 - moment.1 then t.failed now source
        else
          let t := { t with lanes := t.lanes.modify source (fun lane => lane.answered range) }
          let c := range.indices.foldl (checkPiece sha256 bytes moment.1) ⟨t,false,false⟩
          if c.bad then c.transfer.badPiece now source
          else accept sha256 c now source sent lane.firstByteAt (moment.2 - moment.1)

/-- Bytes received so far on a peer's in-flight request; abandons it when it
    cannot finish by the floor. -/
def progress (t : Transfer) (now : Nat) (source : Source) (received : Nat) : Transfer :=
  if t.peerOnly ∧ t.floorAt ≤ now then t.tick now
  else if t.finished ∨ t.floorReached then t
  else
    match t.lanes.get? source with
    | none => t
    | some lane =>
      if lane.retired ∨ lane.inFlight = [] ∨ source.isPeer = false then t
      else
        let t := { t with lanes := t.lanes.modify source (fun lane => lane.progressed now received) }
        if t.hopeless now source then t.abandon now source else t

/-- The lane of a listed source; a peer-only transfer opens none for origin. -/
def openSource (now : Nat) (t : Transfer) (estimate : Estimate) : Transfer :=
  if t.peerOnly ∧ estimate.source.isPeer = false then t else t.openLane now estimate
def startInner (t : Transfer) (now : Nat) (peers : List Estimate) (origin : Option Estimate)
    (sharedFirstByteMs sharedRate : Option ℚ) (probePeers : List Nat) : Transfer :=
  if t.peerOnly ∧ (t.started ∨ t.finished) then t
  else
    let listed := ((probePeers.map Source.peer).filter (fun source => ∃ peer ∈ peers, peer.source = source)).toFinset
    -- A shared estimate is not evidence about this holder: in peer-only mode
    -- every unknown lane is a probe.
    let probes := if t.peerOnly then
        listed ∪ ((peers.filter (fun peer => (positive peer.rate).isNone)).map (·.source)).toFinset
      else listed
    let t := { t with started := true, sharedFirstByteMs, sharedRate, probePeers := probes, probeAvailable := probes }
    let t := (peers ++ origin.toList).foldl (openSource now) t
    t.assign now (List.range t.verified.length)

/-- Start with explicit one-piece calibration allowances. -/
def startWithProbePeers (t : Transfer) (now : Nat) (peers : List Estimate) (origin : Estimate)
    (sharedFirstByteMs sharedRate : Option ℚ) (probePeers : List Nat) : Transfer :=
  t.startInner now peers (if t.peerOnly then none else some origin) sharedFirstByteMs sharedRate probePeers
/-- Plan and issue the first requests. -/
def start (t : Transfer) (now : Nat) (peers : List Estimate) (origin : Estimate)
    (sharedFirstByteMs sharedRate : Option ℚ) : Transfer :=
  t.startWithProbePeers now peers origin sharedFirstByteMs sharedRate []
/-- Start an explicit peer-only handle; a mixed one is left alone. -/
def startPeerOnlyWithProbePeers (t : Transfer) (now : Nat) (peers : List Estimate)
    (sharedFirstByteMs sharedRate : Option ℚ) (probePeers : List Nat) : Transfer :=
  if t.peerOnly then t.startInner now peers none sharedFirstByteMs sharedRate probePeers else t

/-- When the shell should tick next. -/
def nextDeadline (t : Transfer) : Option Nat :=
  if t.finished then none
  else
    let left := t.endgamePieces
    let lag := (t.lanes.values.filter (fun lane => lane.inFlight ≠ [] ∧ ∃ index ∈ left, lane.holds index)).map
      (fun lane => ⌈lane.finishAt⌉.toNat)
    if t.peerOnly then
      if t.peerOnlyEndgameSource = none then some t.floorAt else (lag ++ [t.floorAt]).min?
    else
      let floor := if t.floorReached then [] else [t.floorAt]
      (floor ++ lag ++ t.lanes.keys.filterMap t.watchAt).min?

end
end Transfer

/-! ### Runs -/

inductive Event where
  | start (now : Nat) (peers : List Estimate) (origin : Estimate) (sharedFirstByteMs sharedRate : Option ℚ)
      (probePeers : List Nat)
  | startPeerOnly (now : Nat) (peers : List Estimate) (sharedFirstByteMs sharedRate : Option ℚ)
      (probePeers : List Nat)
  | delivered (now : Nat) (source : Source) (range : PieceRange) (bytes : List UInt8)
  | failed (now : Nat) (source : Source)
  | progress (now : Nat) (source : Source) (received : Nat)
  | tick (now : Nat)
def Event.starts : Event → Bool
  | .start .. => true
  | .startPeerOnly .. => true
  | _ => false

def handle (sha256 : List UInt8 → Digest) (t : Transfer) : Event → Transfer
  | .start now peers origin first rate probes => t.startWithProbePeers now peers origin first rate probes
  | .startPeerOnly now peers first rate probes => t.startPeerOnlyWithProbePeers now peers first rate probes
  | .delivered now source range bytes => t.delivered sha256 now source range bytes
  | .failed now source => t.failed now source
  | .progress now source received => t.progress now source received
  | .tick now => t.tick now

/-- A transfer under a shell that drains the commands after every call, with the
    whole stream of commands it was ever told. -/
structure Shell where
  transfer : Transfer
  emitted : List Command
def Shell.step (sha256 : List UInt8 → Digest) (s : Shell) (event : Event) : Shell :=
  let drained := (handle sha256 s.transfer event).drainCommands
  ⟨drained.2,s.emitted ++ drained.1⟩
def Shell.run (sha256 : List UInt8 → Digest) (s : Shell) (events : List Event) : Shell :=
  events.foldl (Shell.step sha256) s

end RelaySwarm.Transfers
