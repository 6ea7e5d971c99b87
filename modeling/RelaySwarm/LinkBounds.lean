import RelaySwarm.LinkServing

/-!
What a remote can make a link keep. Each set it announces has a bound, and so have the
size, the chunks and the bytes of a response; the bounds hold in every run
(`run_bounded`).
-/
namespace RelaySwarm.Links
open Script Pieces

variable {now expires : Nat}
/-- What a link keeps of what its remote sent, and how many timers it made. -/
structure Memory where
  maxSegmentBytes : Nat
  maxChunks : Nat
  pending : Option Pending
  timers : Nat
  haves : IndexMap String Unit
  fetching : IndexMap String Nat
  renditions : IndexMap String Nat
def Link.memory (link : Link) : Memory where
  maxSegmentBytes := link.config.maxSegmentBytes
  maxChunks := link.config.maxChunks
  pending := link.pending
  timers := link.timers
  haves := link.haves
  fetching := link.fetching
  renditions := link.renditions
structure Pending.Bounded (maxSegmentBytes maxChunks timers : Nat) (pending : Pending) : Prop where
  parts : pending.draining = false → pending.parts.length = pending.received
  dropped : pending.draining = true → pending.parts = []
  received : ∀ size, pending.size = some size → pending.received ≤ size ∧ size ≤ maxSegmentBytes
  nothing : pending.size = none → pending.received = 0 ∧ pending.chunks = 0
  chunks : pending.chunks ≤ maxChunks
  timer : pending.timer ≤ timers
/-- The bounds of all that is kept; each lease meets a condition. -/
structure Memory.Bounded (config : LinkConfig) (lease : String → Nat → Prop) (m : Memory) : Prop where
  limits : m.maxSegmentBytes = config.maxSegmentBytes ∧ m.maxChunks = config.maxChunks
  pending : ∀ pending, m.pending = some pending → pending.Bounded m.maxSegmentBytes m.maxChunks m.timers
  haves : m.haves.length ≤ maxHaveKeys
  fetching : m.fetching.length ≤ maxFetching
  leases : ∀ key expires, m.fetching.get? key = some expires → lease key expires
  renditions : m.renditions.length ≤ maxRenditions

section
variable {config : LinkConfig} {lease : String → Nat → Prop} {link : Link}

theorem emit_bounded (b : link.memory.Bounded config lease) (event : LinkEvent) :
    (link.emit event).memory.Bounded config lease := b
theorem atTime_bounded (b : link.memory.Bounded config lease) (now : Nat) :
    (link.atTime now).memory.Bounded config lease := b
theorem vacate_bounded (b : link.memory.Bounded config lease) : link.vacate.memory.Bounded config lease := b
theorem cancelUploads_bounded (b : link.memory.Bounded config lease) (id : Int) :
    (link.cancelUploads id).memory.Bounded config lease := b
theorem observeBuffered_bounded (b : link.memory.Bounded config lease) (buffered : Nat) :
    (link.observeBuffered buffered).memory.Bounded config lease := b
theorem sendText_bounded (b : link.memory.Bounded config lease) (message : Message) :
    (link.sendText message).memory.Bounded config lease := by
  unfold Link.sendText
  split <;> exact b
theorem Memory.Bounded.vacated {m : Memory} (b : m.Bounded config lease) :
    ({ m with pending := none } : Memory).Bounded config lease :=
  { b with pending := fun _ held => (nomatch held) }
theorem finish_memory (bytes : Option (List UInt8)) (outcome : Option Outcome) (reportNow : Bool) :
    (link.finish bytes outcome reportNow).memory = { link.memory with pending := none } := by
  unfold Link.finish
  split
  · rename_i idle
    unfold Link.memory
    rw [idle]
  · rfl
theorem finish_bounded (b : link.memory.Bounded config lease) (bytes : Option (List UInt8)) (outcome : Option Outcome)
    (reportNow : Bool) :
    (link.finish bytes outcome reportNow).memory.Bounded config lease := by
  rw [finish_memory]
  exact b.vacated

/-! ### Serving -/

theorem startNextFrom_bounded (queue : List Upload) : ∀ link : Link, link.memory.Bounded config lease →
    (startNextFrom queue link).memory.Bounded config lease := by
  induction queue with
  | nil => exact fun link b => b
  | cons upload rest ih =>
    intro link b
    unfold startNextFrom
    split
    · exact b
    · split
      · exact ih _ (sendText_bounded (emit_bounded b _) _)
      · split
        · exact ih _ b
        · exact b
theorem finishUpload_bounded (b : link.memory.Bounded config lease) : link.finishUpload.memory.Bounded config lease :=
  startNextFrom_bounded _ _ b
theorem endChunks_bounded (b : link.memory.Bounded config lease) (now : Nat) (upload : Upload) (bytes : List UInt8)
    (sent : Nat) :
    (link.endChunks now upload bytes sent).memory.Bounded config lease := by
  unfold Link.endChunks
  dsimp only
  refine finishUpload_bounded (sendText_bounded ?_ _)
  split <;> exact b
theorem Memory.Bounded.later {m : Memory} (b : m.Bounded config lease) :
    ({ m with timers := m.timers + 1 } : Memory).Bounded config lease := by
  refine { b with pending := fun pending held => ?_ }
  have before := b.pending pending held
  exact { before with timer := before.timer.trans (Nat.le_succ _) }
theorem sendChunksFrom_bounded (now : Nat) (upload : Upload) (bytes : List UInt8) (left : Nat) :
    ∀ (sent : Nat) (resumed : Bool) (link : Link),
    link.memory.Bounded config lease →
      (sendChunksFrom now upload bytes left sent resumed link).memory.Bounded config lease := by
  induction left with
  | zero => exact fun sent _ link b => endChunks_bounded b now upload bytes sent
  | succ left ih =>
    intro sent resumed link b
    unfold sendChunksFrom
    split
    · exact endChunks_bounded b now upload bytes sent
    · split
      · exact finishUpload_bounded b
      · split
        · exact b.later
        · split
          · exact endChunks_bounded b now upload bytes sent
          · exact ih _ false _ b
theorem decline_bounded (b : link.memory.Bounded config lease) (upload : Upload) :
    (link.decline upload).memory.Bounded config lease :=
  finishUpload_bounded (sendText_bounded b _)
theorem respond_bounded (b : link.memory.Bounded config lease) (now : Nat) (upload : Upload)
    (bytes : Option (List UInt8))
    (rangeObjectSize : Option Nat) : (link.respond now upload bytes rangeObjectSize).memory.Bounded config lease := by
  unfold Link.respond
  split
  · exact decline_bounded b upload
  · split
    · exact decline_bounded (emit_bounded b _) upload
    · split
      · exact finishUpload_bounded b
      · exact sendChunksFrom_bounded now upload _ _ 0 false _ (sendText_bounded b _)
theorem serveResponseInner_bounded (b : link.memory.Bounded config lease) (now : Nat) (bytes : Option (List UInt8))
    (rangeObjectSize : Option Nat) :
    (link.serveResponseInner now bytes rangeObjectSize).memory.Bounded config lease := by
  unfold Link.serveResponseInner
  split
  · exact respond_bounded (vacate_bounded (atTime_bounded b now)) now _ bytes rangeObjectSize
  · exact b
theorem resume_bounded (b : link.memory.Bounded config lease) (now : Nat) :
    (link.resume now).memory.Bounded config lease := by
  unfold Link.resume
  split
  · exact sendChunksFrom_bounded now _ _ _ _ true _ b
  · exact b

/-! ### Closing and abandoning -/

theorem stopUpload_bounded (b : link.memory.Bounded config lease) : link.stopUpload.memory.Bounded config lease := by
  unfold Link.stopUpload
  split
  · exact finishUpload_bounded (vacate_bounded b)
  · exact b
theorem close_running (running : link.closed = false)
    (b : ({ link.memory with pending := none } : Memory).Bounded config lease)
    (reason : CloseReason) : (link.close reason).memory.Bounded config lease := by
  unfold Link.close
  rw [if_neg (by rw [running]; exact Bool.false_ne_true)]
  refine stopUpload_bounded (emit_bounded ?_ _)
  rw [finish_memory]
  exact { b with fetching := Nat.zero_le _, leases := fun _ _ held => (nomatch held), renditions := Nat.zero_le _ }
theorem close_bounded (b : link.memory.Bounded config lease) (reason : CloseReason) :
    (link.close reason).memory.Bounded config lease := by
  cases closed : link.closed with
  | true =>
    unfold Link.close
    rw [if_pos closed]
    exact b
  | false => exact close_running closed b.vacated reason
theorem giveUp_bounded (b : link.memory.Bounded config lease) (reason : CloseReason) (pending : Pending)
    (outcome : Outcome) :
    (link.giveUp reason pending outcome).memory.Bounded config lease := by
  have closed : ((link.finish .none (some outcome) false).close reason).memory.Bounded config lease :=
    close_bounded (finish_bounded b _ _ _) reason
  unfold Link.giveUp
  dsimp only
  split <;> exact closed
theorem drain_bounded (b : link.memory.Bounded config lease) (now : Nat) (reason : CloseReason) {pending : Pending}
    (held : link.pending = some pending)
    (outcome : Outcome) : (link.drain now reason pending outcome).memory.Bounded config lease := by
  have before := b.pending pending held
  have drained : (pending.drain reason (now + link.config.drainTimeoutMs) (link.timers + 1) (!link.silent)).Bounded
      link.config.maxSegmentBytes link.config.maxChunks (link.timers + 1) :=
    { before with parts := fun running => (nomatch running), dropped := fun _ => rfl, timer := le_rfl }
  have rest := b.later
  refine sendText_bounded (emit_bounded (emit_bounded ?_ _) _) _
  refine { rest with pending := fun pending held => ?_ }
  cases held
  exact drained
theorem abandon_bounded (b : link.memory.Bounded config lease) (now : Nat) (reason : CloseReason) (abandoned : Bool) :
    (link.abandon now reason abandoned).memory.Bounded config lease := by
  unfold Link.abandon
  split
  · split
    · exact close_bounded b reason
    · exact b.later
  · rename_i pending held
    split
    · exact giveUp_bounded b reason pending _
    · exact drain_bounded b now reason held _

/-! ### Requests and timers -/

theorem asking_bounded (b : link.memory.Bounded config lease) (now timeoutMs : Nat) (expectedSize : Option Nat)
    (range : Option PieceRange) :
    (link.asking now timeoutMs expectedSize range).memory.Bounded config lease := by
  have rest := b.later
  refine { rest with pending := fun pending held => ?_ }
  cases held
  exact ⟨fun _ => rfl,fun draining => (nomatch draining),fun size known => (nomatch known),fun _ => ⟨rfl,rfl⟩,
    Nat.zero_le _,le_rfl⟩
theorem startRequest_bounded (b : link.memory.Bounded config lease) (now : Nat) (key : String) (timeoutMs : Nat)
    (expectedSize : Option Nat)
    (range : Option PieceRange) : (link.startRequest now key timeoutMs expectedSize range).2.memory.Bounded
      config lease := by
  unfold Link.startRequest
  split
  · exact b
  · have asked := asking_bounded b now timeoutMs expectedSize range
    dsimp only
    split
    · exact finish_bounded asked _ _ _
    · exact sendText_bounded asked _
theorem requestRange_bounded (b : link.memory.Bounded config lease) (now : Nat) (key : String) (timeoutMs : Nat)
    (range : PieceRange)
    (objectSize : Nat) : (link.requestRange now key timeoutMs range objectSize).2.memory.Bounded config lease := by
  unfold Link.requestRange
  split
  · exact b
  · exact startRequest_bounded b now key timeoutMs _ _
theorem abort_bounded (b : link.memory.Bounded config lease) (now id : Nat) (abandoned : Bool) :
    (link.abort now id abandoned).memory.Bounded config lease := by
  unfold Link.abort
  split
  · split
    · exact abandon_bounded (atTime_bounded b now) now _ abandoned
    · exact b
  · exact b
theorem requestTimer_bounded (b : link.memory.Bounded config lease) (now : Nat) :
    (link.requestTimer now).memory.Bounded config lease := by
  unfold Link.requestTimer
  split
  · split
    · exact close_bounded (atTime_bounded b now) _
    · exact abandon_bounded (atTime_bounded b now) now _ _
  · exact b
theorem uploadTimer_bounded (b : link.memory.Bounded config lease) (now : Nat) :
    (link.uploadTimer now).memory.Bounded config lease :=
  finishUpload_bounded (close_bounded (vacate_bounded (atTime_bounded b now)) _)
theorem fire_bounded (b : link.memory.Bounded config lease) (now : Nat) :
    (link.fire now).memory.Bounded config lease := by
  unfold Link.fire
  split
  · split
    · exact requestTimer_bounded b _
    · exact uploadTimer_bounded b _
  · exact requestTimer_bounded b _
  · exact uploadTimer_bounded b _
  · exact b
theorem tick_bounded (b : link.memory.Bounded config lease) (now : Nat) : (link.tick now).memory.Bounded config lease :=
  fire_bounded (fire_bounded b now) now

/-! ### Frames -/

theorem onWant_bounded (b : link.memory.Bounded config lease) (message : Fields) :
    (link.onWant message).memory.Bounded config lease := by
  unfold Link.onWant
  split
  · split
    · exact close_bounded b _
    · split
      · exact close_bounded b _
      · exact startNextFrom_bounded _ _ b
  · exact b
theorem onCancel_bounded (b : link.memory.Bounded config lease) (now : Nat) (message : Fields) :
    (link.onCancel now message).memory.Bounded config lease := by
  unfold Link.onCancel
  split
  · exact b
  · rename_i id _
    split
    · split
      · exact resume_bounded (cancelUploads_bounded b id) now
      · exact b
    · exact b
theorem namesPending_bounded (b : link.memory.Bounded config lease) {message : Fields} {handle : Pending → Link}
    (handled : ∀ pending, link.pending = some pending → (handle pending).memory.Bounded config lease) :
    (link.namesPending message handle).memory.Bounded config lease := by
  unfold Link.namesPending
  split
  · exact b
  · rename_i pending held
    split
    · exact handled pending held
    · split
      · exact close_bounded b _
      · exact b
theorem onMeta_bounded (b : link.memory.Bounded config lease) (message : Fields) :
    (link.onMeta message).memory.Bounded config lease := by
  unfold Link.onMeta
  refine namesPending_bounded b (fun pending held => ?_)
  split
  · exact close_bounded b _
  · rename_i unsized
    split
    · exact close_bounded b _
    · split
      · rename_i size _
        split
        · rename_i fits
          have before := b.pending pending held
          have nothing := before.nothing (by simpa using unsized)
          refine { b with pending := fun next held => ?_ }
          cases held
          refine { before with received := fun declared known => ?_, nothing := fun unknown => (nomatch unknown) }
          cases known
          refine ⟨by rw [nothing.1]; exact Nat.zero_le _,?_⟩
          have limit : size ≤ link.config.maxSegmentBytes := fits.2
          show size.toNat ≤ link.config.maxSegmentBytes
          omega
        · exact close_bounded b _
      · exact close_bounded b _
theorem onEof_bounded (b : link.memory.Bounded config lease) (message : Fields) :
    (link.onEof message).memory.Bounded config lease := by
  unfold Link.onEof
  refine namesPending_bounded b (fun pending held => ?_)
  split
  · exact finish_bounded b _ _ _
  · split
    · exact close_bounded b _
    · split
      · exact finish_bounded b _ _ _
      · exact finish_bounded b _ _ _
theorem onNone_bounded (b : link.memory.Bounded config lease) (message : Fields) :
    (link.onNone message).memory.Bounded config lease := by
  unfold Link.onNone
  refine namesPending_bounded b (fun pending held => ?_)
  split
  · exact close_bounded b _
  · exact finish_bounded b _ _ _

/-! ### What is announced -/

theorem empty_length {κ α : Type} : (IndexMap.empty : IndexMap κ α).length = 0 := rfl
theorem seenRendition_length {renditions : IndexMap String Nat} (few : renditions.length ≤ maxRenditions) (now : Nat)
    (rendition : String) : (seenRendition renditions now rendition).length ≤ maxRenditions := by
  unfold seenRendition
  dsimp only
  have fresh := (renditions.length_retain (fun _ seen => now - renditionStaleMs ≤ seen)).trans few
  split
  · rename_i room
    rcases (Bool.or_eq_true _ _).mp room with present | room
    · rw [IndexMap.length_insert_present present]
      exact fresh
    · have room := of_decide_eq_true room
      exact (IndexMap.length_insert _ _ _).trans room
  · exact fresh
theorem onContribution_bounded (b : link.memory.Bounded config lease) (now : Nat) (message : Fields) :
    (link.onContribution now message).memory.Bounded config lease := by
  unfold Link.onContribution
  split
  · rename_i serving rendition _ _
    cases serving with
    | false =>
      exact { b with fetching := Nat.zero_le _, leases := fun _ _ held => (nomatch held), renditions := Nat.zero_le _ }
    | true =>
      cases rendition with
      | none => exact b
      | some rendition => exact { b with renditions := seenRendition_length b.renditions now rendition }
  · exact b
theorem leased_length {fetching : IndexMap String Nat} (few : fetching.length ≤ maxFetching) (serving : Bool)
    (now : Nat) (key : String) (ms : Nat) : (leased fetching serving now key ms).length ≤ maxFetching := by
  unfold leased
  dsimp only
  have live := (fetching.length_retain (fun _ expires => now < expires)).trans few
  split
  · exact (IndexMap.length_erase _ _).trans live
  · split
    · rename_i room
      rcases (Bool.or_eq_true _ _).mp (Bool.and_eq_true_iff.mp room).2 with present | room
      · rw [IndexMap.length_insert_present present]
        exact live
      · have room := of_decide_eq_true room
        exact (IndexMap.length_insert _ _ _).trans room
    · exact live
theorem leased_kept {fetching : IndexMap String Nat} {serving : Bool} {key : String} {ms : Nat} {k : String}
    (held : (leased fetching serving now key ms).get? k = some expires) :
    fetching.get? k = some expires ∨ k = key ∧ expires = now + ms := by
  unfold leased at held
  dsimp only at held
  split at held
  · exact .inl (IndexMap.get?_retain.mp (IndexMap.get?_retain.mp held).1).1
  · split at held
    · rw [IndexMap.get?_insert] at held
      split at held
      · rename_i same
        cases held
        exact .inr ⟨same,rfl⟩
      · exact .inl (IndexMap.get?_retain.mp held).1
    · exact .inl (IndexMap.get?_retain.mp held).1
theorem onFetching_bounded (b : link.memory.Bounded config lease)
    (leases : ∀ key expires, expires ≤ now + 2000 → lease key expires)
    (message : Fields) : (link.onFetching now message).memory.Bounded config lease := by
  unfold Link.onFetching
  split
  · rename_i key ms _ _
    split
    · rename_i short
      refine { b with fetching := leased_length b.fetching _ _ _ _, leases := fun k expires held => ?_ }
      rcases leased_kept held with before | ⟨_,set⟩
      · exact b.leases k expires before
      · refine leases k expires ?_
        have short : ms ≤ 2000 := short.2
        omega
    · exact b
  · exact b
theorem addKeys_length (keys : List String) : ∀ held : IndexMap String Unit, held.length ≤ maxHaveKeys →
    (addKeys keys held).1.length ≤ maxHaveKeys := by
  induction keys with
  | nil => exact fun held few => few
  | cons key rest ih =>
    intro held few
    unfold addKeys
    split
    · exact few
    · rename_i room
      exact ih _ ((IndexMap.length_insert held key ()).trans (Nat.lt_of_not_le room))
theorem validKeys_length (list : Option Json) : (validKeys list).length ≤ maxHaveKeys := by
  unfold validKeys
  split
  · exact Nat.zero_le _
  · exact (List.length_filterMap_le _ _).trans (List.length_take_le _ _)
theorem inserts_length (keys : List String) : ∀ held : IndexMap String Unit,
    (keys.foldl (fun held key => held.insert key ()) held).length ≤ held.length + keys.length := by
  induction keys with
  | nil => exact fun held => le_rfl
  | cons key rest ih =>
    intro held
    have one := held.length_insert key ()
    have rest := ih (held.insert key ())
    rw [List.foldl_cons,List.length_cons]
    omega
theorem erases_length (keys : List String) : ∀ held : IndexMap String Unit,
    (keys.foldl (fun held key => held.erase key) held).length ≤ held.length := by
  induction keys with
  | nil => exact fun held => le_rfl
  | cons key rest ih => exact fun held => (ih _).trans (held.length_erase key)
theorem haveAfter_length {held : IndexMap String Unit} (few : held.length ≤ maxHaveKeys) (message : Fields) :
    (haveAfter held message).1.length ≤ maxHaveKeys := by
  unfold haveAfter
  dsimp only
  refine (erases_length _ _).trans (addKeys_length _ _ ?_)
  split
  · have listed := inserts_length (validKeys (field message "keys")) .empty
    have valid := validKeys_length (field message "keys")
    rw [empty_length] at listed
    omega
  · exact few
theorem onHave_bounded (b : link.memory.Bounded config lease) (message : Fields) :
    (link.onHave message).memory.Bounded config lease := by
  have told := haveAfter_length b.haves message
  unfold Link.onHave
  dsimp only
  split <;> exact { b with haves := told }

/-! ### A step -/

variable {parse : String → Option Json}

theorem handleMessage_bounded (b : link.memory.Bounded config lease)
    (leases : ∀ key expires, expires ≤ now + 2000 → lease key expires)
    (message : Fields) : (link.handleMessage now message).memory.Bounded config lease := by
  unfold Link.handleMessage
  split
  · exact onContribution_bounded b now message
  · exact onFetching_bounded b leases message
  · exact onHave_bounded b message
  · exact onWant_bounded b message
  · exact onCancel_bounded b now message
  · exact onMeta_bounded b message
  · exact onEof_bounded b message
  · exact onNone_bounded b message
  · exact b
theorem handleText_bounded (b : link.memory.Bounded config lease)
    (leases : ∀ key expires, expires ≤ now + 2000 → lease key expires)
    (text : String) : (link.handleText parse now text).memory.Bounded config lease := by
  unfold Link.handleText
  split
  · exact b
  · split
    · exact close_bounded (atTime_bounded b now) _
    · split
      · exact handleMessage_bounded (atTime_bounded b now) leases _
      · exact b
      · exact close_bounded (atTime_bounded b now) _
theorem handleBinary_bounded (b : link.memory.Bounded config lease) (now : Nat) (chunk : List UInt8) :
    (link.handleBinary now chunk).memory.Bounded config lease := by
  unfold Link.handleBinary
  split
  · exact b
  · rename_i running
    split
    · exact b
    · rename_i pending held
      split
      · exact close_bounded (atTime_bounded b now) _
      · rename_i size known
        split
        · exact close_bounded (atTime_bounded b now) _
        · rename_i taken
          dsimp only
          split
          · have running' : ((link.atTime now).receive pending chunk).closed = false := Bool.eq_false_iff.mpr running
            exact close_running running' b.vacated _
          · rename_i fits
            have before := b.pending pending held
            have received :
                (pending.receive chunk).Bounded link.config.maxSegmentBytes link.config.maxChunks link.timers := by
              refine ⟨fun running => ?_,fun draining => ?_,fun declared same => ?_,fun unknown => ?_,?_,before.timer⟩
              · have whole := before.parts running
                show (if pending.draining then pending.parts else pending.parts ++ chunk).length =
                  pending.received + chunk.length
                have running : pending.draining = false := running
                rw [running,if_neg Bool.false_ne_true,List.length_append,whole]
              · have draining : pending.draining = true := draining
                show (if pending.draining then pending.parts else pending.parts ++ chunk) = []
                rw [if_pos draining]
                exact before.dropped draining
              · have same : pending.size = some declared := same
                cases known.symm.trans same
                exact ⟨Nat.le_of_not_lt fits,(before.received size known).2⟩
              · exact absurd (known.symm.trans unknown) (by simp)
              · simp only [Bool.or_eq_true,not_or,decide_eq_true_eq,Nat.not_le] at taken
                exact taken.2
            have next : ((link.atTime now).receive pending chunk).memory.Bounded config lease := by
              refine { b with pending := fun next held => ?_ }
              cases held
              exact received
            split <;> exact next
theorem step_bounded (b : link.memory.Bounded config lease) {input : Input}
    (leases : ∀ now text, input = .text now text → ∀ key expires, expires ≤ now + 2000 → lease key expires) :
    (link.step parse input).memory.Bounded config lease := by
  cases input with
  | sendHave keys => exact sendText_bounded b _
  | sendHaveChange add del =>
    show (link.sendHaveChange add del).memory.Bounded config lease
    unfold Link.sendHaveChange
    split
    · exact b
    · exact sendText_bounded b _
  | sendContribution serving rendition => exact sendText_bounded b _
  | sendFetching key leaseMs => exact sendText_bounded b _
  | request now key timeoutMs expectedSize => exact startRequest_bounded b now key timeoutMs expectedSize .none
  | requestRange now key timeoutMs range objectSize => exact requestRange_bounded b now key timeoutMs range objectSize
  | abort now id abandoned => exact abort_bounded b now id abandoned
  | close reason => exact close_bounded b _
  | tick now => exact tick_bounded b now
  | text now text => exact handleText_bounded b (leases now text rfl) text
  | binary now chunk => exact handleBinary_bounded b now chunk
  | serveResponse now bytes => exact serveResponseInner_bounded b now bytes .none
  | serveRangeResponse now objectSize bytes => exact serveResponseInner_bounded b now (some bytes) (some objectSize)
  | bufferedAmountLow now buffered => exact resume_bounded (observeBuffered_bounded (atTime_bounded b now) buffered) now
  | observeBuffered buffered => exact b
  | setChannelOpen isOpen => exact b
  | setReliable reliable => exact b
theorem new_bounded (config : LinkConfig) (opened : Nat) : (Link.new config opened).memory.Bounded config lease :=
  ⟨⟨rfl,rfl⟩,fun _ held => (nomatch held),Nat.zero_le _,Nat.zero_le _,
    fun _ _ held => (nomatch held),Nat.zero_le _⟩

/-! ### Runs -/

variable (parse) in
theorem run_bounded (inputs : List Input) : ∀ link : Link, link.memory.Bounded config (fun _ _ => True) →
    (link.run parse inputs).memory.Bounded config (fun _ _ => True) := by
  induction inputs with
  | nil => exact fun link b => b
  | cons input rest ih => exact fun link b => ih _ (step_bounded b (fun _ _ _ _ _ _ => trivial))
variable (parse) in
theorem step_leases (b : link.memory.Bounded config lease) (input : Input) {key : String}
    (held : (link.step parse input).fetching.get? key = some expires) :
    link.fetching.get? key = some expires ∨ ∃ now text, input = .text now text ∧ expires ≤ now + 2000 := by
  have own : link.memory.Bounded config (fun key expires =>
      link.fetching.get? key = some expires ∨ ∃ now text, input = .text now text ∧ expires ≤ now + 2000) :=
    { b with leases := fun key expires held => .inl held }
  have stepped : (link.step parse input).memory.Bounded config _ :=
    step_bounded own (fun now text same key expires short => .inr ⟨now,text,same,short⟩)
  exact stepped.leases key expires held
variable (parse) in
/-- The text that set a lease: it was not there before, and is in every state since. -/
def Link.LeasedBy (link : Link) (inputs : List Input) (key : String) (expires : Nat) : Prop :=
  ∃ before now text after, inputs = before ++ .text now text :: after ∧ expires ≤ now + 2000 ∧
    (link.run parse before).fetching.get? key ≠ some expires ∧
    ∀ since, since <+: after → (link.run parse (before ++ .text now text :: since)).fetching.get? key = some expires
variable (parse) in
theorem run_leases (inputs : List Input) (b : link.memory.Bounded config (fun _ _ => True))
    (absent : link.fetching = .empty) {key : String} (held : (link.run parse inputs).fetching.get? key = some expires) :
    link.LeasedBy parse inputs key expires := by
  induction inputs using List.reverseRecOn with
  | nil =>
    have held : link.fetching.get? key = some expires := held
    rw [absent] at held
    cases held
  | append_singleton inputs input ih =>
    have same : link.run parse (inputs ++ [input]) = (link.run parse inputs).step parse input := List.foldl_append
    by_cases before : (link.run parse inputs).fetching.get? key = some expires
    · obtain ⟨first,now,text,after,rfl,short,fresh,since⟩ := ih before
      refine ⟨first,now,text,after ++ [input],by simp,short,fresh,fun part ahead => ?_⟩
      rcases List.prefix_concat_iff.mp ahead with whole | early
      · rw [whole,← List.cons_append,← List.append_assoc]
        exact held
      · exact since part early
    · have told := held
      rw [same] at told
      rcases step_leases parse (run_bounded parse inputs link b) input told with kept | ⟨now,text,rfl,short⟩
      · exact absurd kept before
      · refine ⟨inputs,now,text,[],rfl,short,before,fun part ahead => ?_⟩
        rw [List.prefix_nil.mp ahead]
        exact held

end

/-- What a remote can make a link keep, in every run. -/
theorem run_memory (parse : String → Option Json) (config : LinkConfig) (opened : Nat) (inputs : List Input) :
    let link := (Link.new config opened).run parse inputs
    link.haves.length ≤ 256 ∧ link.fetching.length ≤ 24 ∧ link.renditions.length ≤ 8 ∧
    (∀ key expires, link.fetching.get? key = some expires →
      (Link.new config opened).LeasedBy parse inputs key expires) ∧
    (∀ pending, link.pending = some pending →
      (pending.draining = false → pending.parts.length = pending.received) ∧
      (pending.draining = true → pending.parts = []) ∧
      (∀ size, pending.size = some size → pending.received ≤ size ∧ size ≤ config.maxSegmentBytes) ∧
      (pending.size = none → pending.received = 0 ∧ pending.chunks = 0) ∧
      pending.chunks ≤ config.maxChunks) ∧
    link.queue.length ≤ config.maxQueuedRequests := by
  have start : (Link.new config opened).memory.Bounded config (fun _ _ => True) := new_bounded config opened
  have b := run_bounded parse inputs _ start
  have counted := (run_accounted parse inputs _ _ (new_accounted config opened)).counted
  intro link
  refine ⟨b.haves,b.fetching,b.renditions,fun key expires held => run_leases parse inputs start rfl held,
    fun pending held => ?_,?_⟩
  · have bounds := b.pending pending held
    rw [b.limits.1,b.limits.2] at bounds
    exact ⟨bounds.parts,bounds.dropped,bounds.received,bounds.nothing,bounds.chunks⟩
  · have room := (run_accounted parse inputs _ _ (new_accounted config opened)).room
    have few := counted.bounded
    rw [counted.counted,room] at few
    exact (Nat.le_add_right _ _).trans few

end RelaySwarm.Links
