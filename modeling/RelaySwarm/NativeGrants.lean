import Mathlib.Data.List.Induction
import RelaySwarm.NativeSeeder

/-!
Grants of a native seeder are used once. A grant admits the one connection that takes
it, and that connection is sent at most the object of the grant, for a request that
repeats it (`run_sound`). A live grant is lost to a connection from its own key, to a
dial that names its key, whoever signed it, and to nothing else (`step_keeps`).
-/
namespace RelaySwarm.NativeSeeder
open JsonText ObjectTransfer

/-! ### One socket -/

/-- The frame is a request for what was granted. -/
def Repeats (authorization : Authorization) (frame : Frame) : Prop :=
  frame.type = FrameType.request ∧ ∃ fields, parseJsonObject frame.payload = .ok fields ∧
    fieldText fields (lit "requestId") = some authorization.requestId ∧
    fieldText fields (lit "sha256") = some authorization.sha256 ∧
    fieldNumber fields (lit "size") = some (authorization.size : ℚ)


section
variable (sha256Hex : Bytes → Text) (object : Bytes)

theorem answerRequest_repeats {authorization : Authorization} {frame : Frame} {bytes : Bytes}
    (answered : answerRequest sha256Hex authorization.identity (fun _ => some object) defaultMaxObjectBytes frame =
      .ok bytes) :
    Repeats authorization frame ∧ bytes = object ∧ object.length = authorization.size ∧
      sha256Hex object = authorization.sha256 := by
  rw [answerRequest] at answered
  split at answered
  · cases answered
  rename_i request
  cases parsed : parseJsonObject frame.payload with
  | error fault => simp [parsed] at answered
  | ok fields =>
    simp only [parsed] at answered
    split at answered
    · cases answered
    split at answered
    · cases answered
    rename_i same
    split at answered
    · cases answered
    rename_i authorised
    cases answered
    rw [not_or,not_or,not_not,not_not,not_not] at same
    rw [not_or,not_not,not_not] at authorised
    exact ⟨⟨not_not.mp request,fields,parsed,same⟩,rfl,authorised⟩
theorem objectFrames_flatten (identity : Identity) (bytes : Bytes) :
    (objectFrames identity bytes).flatten = objectStream identity bytes := by
  simp [objectFrames,objectStream,List.flatMap_def]

/-- What a server has read by the stage it is in, and what it has written and will write. -/
def Course (socket : Socket) : Prop :=
  match socket.stage with
  | .reading pending => socket.output = [] ∧
      ∀ rest, readFirstFrame [] (socket.received ++ rest) = readFirstFrame pending rest
  | .answering frame => socket.output = [] ∧ readFirstFrame [] socket.received = .ok frame
  | .sending left => socket.output ++ left.flatten = objectStream socket.authorization.identity object ∧
      object.length = socket.authorization.size ∧ sha256Hex object = socket.authorization.sha256 ∧
      ∃ frame, readFirstFrame [] socket.received = .ok frame ∧ Repeats socket.authorization frame
  | .ended => True
/-- What was written is a front of the object that was granted, for a request that
    repeats the grant, and a refusal at most behind it. -/
structure Served (socket : Socket) (written ending : Bytes) : Prop where
  output : socket.output = written ++ ending
  ending : ending = [] ∨ ending = rejection
  front : written <+: objectStream socket.authorization.identity object
  granted : written ≠ [] → object.length = socket.authorization.size ∧ sha256Hex object = socket.authorization.sha256 ∧
    ∃ frame, readFirstFrame [] socket.received = .ok frame ∧ Repeats socket.authorization frame
/-- A socket in its course, with what was written so far. -/
structure Handled (socket : Socket) : Prop where
  course : Course sha256Hex object socket
  served : ∃ written ending, Served sha256Hex object socket written ending

variable {sha256Hex object} {socket : Socket}
theorem Served.silent (silent : socket.output = []) : Served sha256Hex object socket [] [] where
  output := silent
  ending := .inl rfl
  front := List.nil_prefix
  granted := fun some => absurd rfl some
theorem Course.front {left : List Bytes} (course : Course sha256Hex object socket)
    (sending : socket.stage = .sending left) :
    Served sha256Hex object socket socket.output [] := by
  rw [Course,sending] at course
  obtain ⟨whole,length,digest,request⟩ := course
  constructor
  · rw [List.append_nil]
  · exact .inl rfl
  · exact ⟨_,whole⟩
  · exact fun _ => ⟨length,digest,request⟩

theorem Served.same {other : Socket} {written ending : Bytes} (served : Served sha256Hex object socket written ending)
    (output : other.output = socket.output) (received : other.received = socket.received)
    (authorization : other.authorization = socket.authorization) : Served sha256Hex object other written ending where
  output := output.trans served.output
  ending := served.ending
  front := authorization ▸ served.front
  granted := by
    rw [authorization,received]
    exact served.granted

theorem Handled.fail (handled : Handled sha256Hex object socket) : Handled sha256Hex object socket.fail := by
  obtain ⟨written,ending,served⟩ := handled.served
  exact ⟨trivial,written,ending,served.same rfl rfl rfl⟩
theorem Handled.reject (handled : Handled sha256Hex object socket)
    (bare : ∃ written, Served sha256Hex object socket written []) :
    Handled sha256Hex object socket.reject := by
  by_cases gone : socket.destroyed = true
  · rw [Socket.reject,if_pos gone]
    obtain ⟨written,ending,served⟩ := handled.served
    exact ⟨trivial,written,ending,served.same rfl rfl rfl⟩
  · rw [Socket.reject,if_neg gone]
    obtain ⟨written,served⟩ := bare
    refine ⟨trivial,written,RelaySwarm.ObjectTransfer.rejection,?_,.inr rfl,served.front,served.granted⟩
    have output := served.output
    rw [List.append_nil] at output
    rw [output]
theorem Handled.destroy (handled : Handled sha256Hex object socket) : Handled sha256Hex object socket.destroy := by
  obtain ⟨written,ending,served⟩ := handled.served
  exact ⟨handled.course,written,ending,served.same rfl rfl rfl⟩

theorem Handled.onData (handled : Handled sha256Hex object socket) (chunk : Bytes) :
    Handled sha256Hex object (socket.onData chunk) := by
  have course := handled.course
  rw [Socket.onData]
  cases stage : socket.stage with
  | answering frame | sending left | ended => exact handled
  | reading pending =>
    rw [Course,stage] at course
    obtain ⟨silent,reads⟩ := course
    dsimp only
    by_cases gone : socket.destroyed = true
    · rw [if_pos gone]
      exact handled
    · rw [if_neg gone]
      have next : ∀ rest, readFirstFrame [] (socket.received ++ [chunk] ++ rest) =
          readFirstFrame pending (chunk :: rest) := by
        intro rest
        rw [List.append_assoc,reads]
        rfl
      cases read : readFrame (pending ++ chunk) with
      | error fault => exact ⟨trivial,[],[],Served.silent silent⟩
      | ok got =>
        cases got with
        | short needed =>
          refine ⟨⟨silent,?_⟩,[],[],Served.silent silent⟩
          intro rest
          rw [next,readFirstFrame,read]
        | frame frame behind =>
          dsimp only
          by_cases alone : behind = []
          · rw [if_pos alone]
            refine ⟨⟨silent,?_⟩,[],[],Served.silent silent⟩
            have whole := next []
            rw [List.append_nil,readFirstFrame,read] at whole
            simpa [alone] using whole
          · rw [if_neg alone]
            exact ⟨trivial,[],[],Served.silent silent⟩
theorem Handled.resume (handled : Handled sha256Hex object socket) :
    Handled sha256Hex object (socket.resume sha256Hex object) := by
  have course := handled.course
  rw [Socket.resume]
  cases stage : socket.stage with
  | reading pending | ended => exact handled
  | answering frame =>
    rw [Course,stage] at course
    obtain ⟨silent,read⟩ := course
    dsimp only
    cases answered : answerRequest sha256Hex socket.authorization.identity (fun _ => some object)
      defaultMaxObjectBytes frame with
    | error fault => exact handled.reject ⟨[],Served.silent silent⟩
    | ok bytes =>
      obtain ⟨repeats,rfl,length,digest⟩ := answerRequest_repeats sha256Hex object answered
      refine ⟨⟨?_,length,digest,frame,read,repeats⟩,[],[],Served.silent silent⟩
      rw [silent,List.nil_append,objectFrames_flatten]
  | sending left =>
    have front := course.front stage
    rw [Course,stage] at course
    obtain ⟨whole,length,digest,request⟩ := course
    cases left with
    | nil => exact ⟨trivial,socket.output,[],front.same rfl rfl rfl⟩
    | cons frame rest =>
      dsimp only
      by_cases gone : socket.destroyed = true
      · rw [if_pos gone]
        exact ⟨trivial,socket.output,[],front.same rfl rfl rfl⟩
      · rw [if_neg gone]
        have course :
            Course sha256Hex object { socket with stage := .sending rest,output := socket.output ++ frame } := by
          refine ⟨?_,length,digest,request⟩
          rw [List.append_assoc,← List.flatten_cons]
          exact whole
        exact ⟨course,_,_,course.front rfl⟩
theorem Handled.broken (handled : Handled sha256Hex object socket) : Handled sha256Hex object socket.broken := by
  rw [Socket.broken]
  cases stage : socket.stage with
  | reading pending => exact handled.fail
  | sending left => exact handled.reject ⟨_,handled.course.front stage⟩
  | answering frame | ended => exact handled
theorem Handled.gone (handled : Handled sha256Hex object socket) : Handled sha256Hex object socket.gone := by
  rw [Socket.gone]
  cases stage : socket.stage with
  | reading pending => exact handled.fail
  | answering frame | sending left | ended => exact handled.destroy

/-! ### All sockets -/

theorem reject_authorization (socket : Socket) : socket.reject.authorization = socket.authorization := by
  rw [Socket.reject]
  split <;> rfl
theorem onData_authorization (socket : Socket) (chunk : Bytes) :
    (socket.onData chunk).authorization = socket.authorization := by
  rw [Socket.onData]
  split
  · split
    · rfl
    · dsimp only
      split
      · rfl
      · rfl
      · split <;> rfl
  · rfl
theorem resume_authorization (socket : Socket) :
    (socket.resume sha256Hex object).authorization = socket.authorization := by
  rw [Socket.resume]
  split
  · split
    · exact reject_authorization socket
    · rfl
  · split <;> rfl
  · rfl
  · rfl
theorem broken_authorization (socket : Socket) : socket.broken.authorization = socket.authorization := by
  rw [Socket.broken]
  split
  · rfl
  · exact reject_authorization socket
  · rfl
theorem gone_authorization (socket : Socket) : socket.gone.authorization = socket.authorization := by
  rw [Socket.gone]
  split <;> rfl

variable (sha256Hex object) in
/-- A change of each socket that keeps its grant and its course. -/
structure Onward (f : Nat → Socket → Socket) : Prop where
  authorization : ∀ i socket, (f i socket).authorization = socket.authorization
  handled : ∀ i socket, Handled sha256Hex object socket → Handled sha256Hex object (f i socket)
def only (i : Nat) (f : Socket → Socket) (j : Nat) (socket : Socket) : Socket := if j = i then f socket else socket
theorem modify_only (sockets : List Socket) (i : Nat) (f : Socket → Socket) :
    sockets.modify i f = sockets.mapIdx (only i f) := by
  apply List.ext_getElem?
  intro j
  rw [List.getElem?_modify,List.getElem?_mapIdx]
  by_cases same : i = j
  · subst same
    cases sockets[i]? <;> simp [only]
  · cases sockets[j]? <;> simp [only,same,Ne.symm same]
theorem Onward.only {f : Socket → Socket} (i : Nat)
    (authorization : ∀ socket, (f socket).authorization = socket.authorization)
    (handled : ∀ socket, Handled sha256Hex object socket → Handled sha256Hex object (f socket)) :
    Onward sha256Hex object (only i f) where
  authorization j socket := by
    rw [NativeSeeder.only]
    split
    · exact authorization socket
    · rfl
  handled j socket course := by
    rw [NativeSeeder.only]
    split
    · exact handled socket course
    · exact course
theorem Onward.still : Onward sha256Hex object (fun _ socket => socket) := ⟨fun _ _ => rfl,fun _ _ handled => handled⟩

/-! ### The seeder -/

def serials (s : State) : List Nat := s.sockets.map (·.authorization.serial)

variable (sha256Hex object) in
/-- A grant is held under one key, by no socket, and what is held is within its bounds. -/
structure Sound (config : Config) (s : State) : Prop where
  fresh : ∀ k g, s.authorizations.get? k = some g → g.serial < s.accepted ∧ g.serial ∉ serials s
  known : ∀ n ∈ serials s, n < s.accepted
  once : (serials s).Nodup
  apart : ∀ k k' g g', s.authorizations.get? k = some g → s.authorizations.get? k' = some g' →
    g.serial = g'.serial → k = k'
  named : ∀ k g, s.authorizations.get? k = some g → g.transportPublicKey = k ∧ ∀ n, k = .object n → n = g.serial
  handled : ∀ socket ∈ s.sockets, Handled sha256Hex object socket
  grants : s.authorizations.length ≤ config.maxAuthorizations
  connections : s.connections.length ≤ config.maxConnections
  dials : s.handled.length ≤ maxHandled

variable {config : Config} {s s' : State}
theorem new_sound : Sound sha256Hex object config .new where
  fresh k g held := by cases held
  known n member := by cases member
  once := List.nodup_nil
  apart k k' g g' held := by cases held
  named k g held := by cases held
  handled socket member := by cases member
  grants := Nat.zero_le _
  connections := Nat.zero_le _
  dials := Nat.zero_le _
theorem Sound.fewer {f : Nat → Socket → Socket} (sound : Sound sha256Hex object config s)
    (onward : Onward sha256Hex object f)
    (grants : ∀ k g, s'.authorizations.get? k = some g → s.authorizations.get? k = some g)
    (short : s'.authorizations.length ≤ s.authorizations.length) (accepted : s'.accepted = s.accepted)
    (sockets : s'.sockets = s.sockets.mapIdx f) (connections : s'.connections.length ≤ s.connections.length)
    (dials : s'.handled.length ≤ maxHandled) : Sound sha256Hex object config s' := by
  have same : serials s' = serials s := by
    rw [serials,serials,sockets]
    apply List.ext_getElem?
    intro i
    rw [List.getElem?_map,List.getElem?_map,List.getElem?_mapIdx]
    cases s.sockets[i]? with
    | none => rfl
    | some socket => exact congrArg (fun g => some g.serial) (onward.authorization i socket)
  constructor
  · intro k g held
    rw [same,accepted]
    exact sound.fresh k g (grants k g held)
  · rw [same,accepted]
    exact sound.known
  · rw [same]
    exact sound.once
  · exact fun k k' g g' held held' => sound.apart k k' g g' (grants k g held) (grants k' g' held')
  · exact fun k g held => sound.named k g (grants k g held)
  · intro socket member
    rw [sockets] at member
    obtain ⟨i,inside,rfl⟩ := List.mem_mapIdx.mp member
    exact onward.handled i _ (sound.handled _ (List.getElem_mem inside))
  · exact short.trans sound.grants
  · exact connections.trans sound.connections
  · exact dials
theorem mapIdx_still (sockets : List Socket) : sockets = sockets.mapIdx (fun _ socket => socket) := by
  apply List.ext_getElem?
  intro i
  rw [List.getElem?_mapIdx]
  exact Option.map_id'.symm ▸ rfl

/-- The grant that an accepted dial is given. -/
def grantOf (s : State) (request : Request) (now : Nat) : Authorization where
  serial := s.accepted
  transportPublicKey := keyOf s.accepted request.transportPublicKey
  nostrPubkey := request.nostrPubkey
  requestId := request.requestId
  sha256 := request.sha256
  size := request.size
  expiresAt := now + request.lifetimeMs
/-- The grants that have not expired. -/
def liveGrants (s : State) (now : Nat) : IndexMap Key Authorization :=
  s.authorizations.retain (fun _ authorization => now < authorization.expiresAt)
/-- A request is refused, and at most the grants that expired are gone, or it has a grant. -/
theorem authorize_cases (config : Config) (s : State) (request : Request) (now : Nat) :
    (∃ error, authorize config s request now = (s,some error)) ∨
    (∃ error, authorize config s request now = ({ s with authorizations := liveGrants s now },some error)) ∨
    (((liveGrants s now).contains (keyOf s.accepted request.transportPublicKey) = true ∨
        (liveGrants s now).length < config.maxAuthorizations) ∧
      authorize config s request now = ({ s with
        authorizations :=
          (liveGrants s now).insert (keyOf s.accepted request.transportPublicKey) (grantOf s request now)
        accepted := s.accepted + 1 },none)) := by
  rw [authorize]
  split
  · exact .inl ⟨_,rfl⟩
  split
  · exact .inl ⟨_,rfl⟩
  split
  · exact .inl ⟨_,rfl⟩
  split
  · exact .inl ⟨_,rfl⟩
  split
  · exact .inl ⟨_,rfl⟩
  dsimp only
  split
  · exact .inr (.inl ⟨_,rfl⟩)
  · rename_i room
    refine .inr (.inr ⟨?_,rfl⟩)
    by_cases present : (liveGrants s now).contains (keyOf s.accepted request.transportPublicKey) = true
    · exact .inl present
    · exact .inr (not_le.mp fun full => room ⟨Bool.not_eq_true _ ▸ present,full⟩)
/-- The request that a signal is for. -/
def requestOf (sha256Hex : Bytes → Text) (object : Bytes) (signal : Signal) : Request where
  transportPublicKey := field signal.payload (lit "transportPublicKey")
  nostrPubkey := signal.sender
  requestId := signal.requestId
  sha256 := sha256Hex object
  size := object.length
/-- A signal is passed over, or refused, or its request has a grant. -/
theorem onSignal_cases (config : Config) (sha256Hex : Bytes → Text) (object : Bytes) (s : State) (signal : Signal)
    (now later : Nat) :
    let handled := s.handled.retain (fun _ expires => decide (now < expires))
    let request := requestOf sha256Hex object signal
    onSignal config sha256Hex object s signal now later = s ∨
    onSignal config sha256Hex object s signal now later = { s with handled } ∨
    onSignal config sha256Hex object s signal now later = { s with handled, authorizations := liveGrants s later } ∨
    handled.length < maxHandled ∧
      ((liveGrants s later).contains (keyOf s.accepted request.transportPublicKey) = true ∨
        (liveGrants s later).length < config.maxAuthorizations) ∧
      onSignal config sha256Hex object s signal now later = { s with
        handled := handled.insert (signal.sender ++ 58 :: signal.requestId) (now + 120000)
        authorizations :=
          (liveGrants s later).insert (keyOf s.accepted request.transportPublicKey) (grantOf s request later)
        accepted := s.accepted + 1 } := by
  dsimp only
  rw [onSignal]
  split
  · exact .inl rfl
  split
  · exact .inl rfl
  dsimp only
  split
  · exact .inr (.inl rfl)
  · rename_i free
    rw [not_or,not_le] at free
    rcases authorize_cases config { s with handled := s.handled.retain (fun _ expires => decide (now < expires)) }
      (requestOf sha256Hex object signal) later with ⟨error,refused⟩ | ⟨error,refused⟩ | ⟨room,granted⟩
    · rw [requestOf] at refused
      exact .inr (.inl (by rw [refused]))
    · rw [requestOf] at refused
      exact .inr (.inr (.inl (by rw [refused]; rfl)))
    · rw [requestOf] at granted
      exact .inr (.inr (.inr ⟨free.2,room,by rw [granted]; rfl⟩))

/-- A dial that is accepted adds a grant in the place of the one its key had. -/
theorem Sound.issued (sound : Sound sha256Hex object config s) (request : Request) (now : Nat)
    {dials : IndexMap Text Nat} (few : dials.length ≤ maxHandled)
    (room : (liveGrants s now).contains (keyOf s.accepted request.transportPublicKey) = true ∨
      (liveGrants s now).length < config.maxAuthorizations) :
    Sound sha256Hex object config { s with
      authorizations := (liveGrants s now).insert (keyOf s.accepted request.transportPublicKey) (grantOf s request now)
      accepted := s.accepted + 1
      handled := dials } := by
  obtain ⟨key,named⟩ : ∃ key, key = keyOf s.accepted request.transportPublicKey := ⟨_,rfl⟩
  rw [← named] at room ⊢
  have held_cases : ∀ k g, ((liveGrants s now).insert key (grantOf s request now)).get? k = some g →
      (k = key ∧ g = grantOf s request now) ∨ (k ≠ key ∧ s.authorizations.get? k = some g) := by
    intro k g held
    rw [IndexMap.get?_insert] at held
    by_cases same : k = key
    · rw [if_pos same] at held
      exact .inl ⟨same,(Option.some.inj held).symm⟩
    · rw [if_neg same] at held
      exact .inr ⟨same,(IndexMap.get?_retain.mp held).1⟩
  constructor
  · intro k g held
    rcases held_cases k g held with ⟨_,rfl⟩ | ⟨_,old⟩
    · exact ⟨Nat.lt_succ_self _,fun taken => Nat.lt_irrefl _ (sound.known _ taken)⟩
    · obtain ⟨before,free⟩ := sound.fresh k g old
      exact ⟨Nat.lt_succ_of_lt before,free⟩
  · exact fun n member => Nat.lt_succ_of_lt (sound.known n member)
  · exact sound.once
  · intro k k' g g' held held' same
    rcases held_cases k g held with ⟨rfl,rfl⟩ | ⟨_,old⟩ <;> rcases held_cases k' g' held' with ⟨rfl,rfl⟩ | ⟨_,old'⟩
    · rfl
    · exact absurd same.symm (Nat.ne_of_lt (sound.fresh k' g' old').1)
    · exact absurd same (Nat.ne_of_lt (sound.fresh k g old).1)
    · exact sound.apart k k' g g' old old' same
  · intro k g held
    rcases held_cases k g held with ⟨rfl,rfl⟩ | ⟨_,old⟩
    · refine ⟨named.symm,?_⟩
      rintro n rfl
      unfold keyOf at named
      split at named
      · cases named
      · exact Key.object.inj named
    · exact sound.named k g old
  · exact sound.handled
  · rcases room with present | free
    · dsimp only
      rw [IndexMap.length_insert_present present]
      exact (IndexMap.length_retain _ _).trans sound.grants
    · exact (IndexMap.length_insert _ _ _).trans free
  · exact sound.connections
  · exact few
theorem Sound.signal (sound : Sound sha256Hex object config s) (signal : Signal) (now later : Nat) :
    Sound sha256Hex object config (onSignal config sha256Hex object s signal now later) := by
  have kept : (s.handled.retain (fun _ expires => decide (now < expires))).length ≤ maxHandled :=
    (IndexMap.length_retain _ _).trans sound.dials
  have pruned :
      Sound sha256Hex object config { s with handled := s.handled.retain (fun _ expires => decide (now < expires)) } :=
    sound.fewer Onward.still (fun _ _ held => held) le_rfl rfl (mapIdx_still _) le_rfl kept
  rcases onSignal_cases config sha256Hex object s signal now later with same | same | same | ⟨place,room,same⟩
  · rwa [same]
  · rwa [same]
  · rw [same]
    exact pruned.fewer Onward.still (fun k g held => (IndexMap.get?_retain.mp held).1) (IndexMap.length_retain _ _) rfl
      (mapIdx_still _) le_rfl kept
  · rw [same]
    exact pruned.issued (requestOf sha256Hex object signal) later ((IndexMap.length_insert _ _ _).trans place) room
theorem Sound.accept (sound : Sound sha256Hex object config s) (key : Text) (now : Nat) :
    Sound sha256Hex object config (accept config s key now) := by
  have erased : Sound sha256Hex object config { s with authorizations := s.authorizations.erase (.text key) } :=
    sound.fewer Onward.still (fun k g held => (IndexMap.get?_retain.mp held).1) (IndexMap.length_erase _ _) rfl
      (mapIdx_still _) le_rfl sound.dials
  rw [NativeSeeder.accept]
  cases found : s.authorizations.get? (.text key) with
  | none => exact erased
  | some authorization =>
    dsimp only
    split
    · exact erased
    · rename_i free
      rw [not_or,not_or,not_le,not_le] at free
      obtain ⟨before,untaken⟩ := sound.fresh _ _ found
      have taken : ∀ k g, (s.authorizations.erase (.text key)).get? k = some g → g.serial ≠ authorization.serial := by
        intro k g held same
        obtain ⟨old,other⟩ := IndexMap.get?_retain.mp held
        rw [sound.apart k (.text key) g authorization old found same] at other
        simp at other
      obtain ⟨socket,made⟩ : ∃ socket : Socket, socket = {
        key,authorization
        stage := if (validateIdentity authorization.identity defaultMaxObjectBytes).isOk then .reading [] else .ended
        destroyed := !(validateIdentity authorization.identity defaultMaxObjectBytes).isOk,received := [],output :=
          [] } := ⟨_,rfl⟩
      have whose : socket.authorization = authorization := by rw [made]
      have course : Handled sha256Hex object socket := by
        have silent : socket.output = [] := by rw [made]
        refine ⟨?_,[],[],Served.silent silent⟩
        rw [made,Course]
        dsimp only
        by_cases valid : (validateIdentity authorization.identity defaultMaxObjectBytes).isOk = true
        · rw [if_pos valid]
          exact ⟨rfl,fun _ => rfl⟩
        · rw [if_neg valid]
          trivial
      rw [← made]
      have more : serials { s with
          authorizations := s.authorizations.erase (.text key)
          connections := s.connections ++ [s.sockets.length]
          sockets := s.sockets ++ [socket] } = serials s ++ [authorization.serial] := by
        rw [serials,List.map_append,← whose]
        rfl
      constructor
      · intro k g held
        rw [more,List.mem_append,List.mem_singleton,not_or]
        obtain ⟨under,other⟩ := erased.fresh k g held
        exact ⟨under,other,taken k g held⟩
      · rw [more]
        intro n member
        rcases List.mem_append.mp member with old | new
        · exact sound.known n old
        · rw [List.mem_singleton.mp new]
          exact before
      · rw [more,List.nodup_append]
        refine ⟨sound.once,List.nodup_singleton _,?_⟩
        rintro n member _ (_ | _) rfl
        · exact untaken member
        · contradiction
      · exact erased.apart
      · exact erased.named
      · intro other member
        rcases List.mem_append.mp member with old | new
        · exact sound.handled other old
        · rw [List.mem_singleton.mp new]
          exact course
      · exact erased.grants
      · dsimp only
        rw [List.length_append]
        exact free.2.2
      · exact sound.dials
theorem Sound.update (sound : Sound sha256Hex object config s) (i : Nat) {f : Socket → Socket}
    (authorization : ∀ socket, (f socket).authorization = socket.authorization)
    (handled : ∀ socket, Handled sha256Hex object socket → Handled sha256Hex object (f socket)) :
    Sound sha256Hex object config (s.update i f) :=
  sound.fewer (Onward.only i authorization handled) (fun _ _ held => held) le_rfl rfl (modify_only _ _ _)
    le_rfl sound.dials
theorem Sound.close (sound : Sound sha256Hex object config s) : Sound sha256Hex object config (close s) := by
  rw [NativeSeeder.close]
  split
  · exact sound
  · refine sound.fewer (f := fun i socket => if i ∈ s.connections then socket.destroy
      else socket) ⟨?_,?_⟩ ?_ (Nat.zero_le _) rfl rfl
      (Nat.zero_le _) sound.dials
    · intro i socket
      split <;> rfl
    · intro i socket handled
      split
      · exact handled.destroy
      · exact handled
    · intro k g held
      cases held
theorem Sound.step (sound : Sound sha256Hex object config s) (e : Event) :
    Sound sha256Hex object config (step config sha256Hex object s e) := by
  cases e with
  | signal signal now later => exact sound.signal signal now later
  | firewall key now =>
    rw [NativeSeeder.step,firewall]
    split
    · exact sound.fewer Onward.still (fun k g held => (IndexMap.get?_retain.mp held).1) (IndexMap.length_erase _ _) rfl
        (mapIdx_still _) le_rfl sound.dials
    · exact sound
  | connection key now => exact sound.accept key now
  | data i chunk =>
    exact sound.update i (fun socket => onData_authorization socket chunk) (fun _ handled => handled.onData chunk)
  | resume i => exact sound.update i resume_authorization (fun _ handled => handled.resume)
  | broken i => exact sound.update i broken_authorization (fun _ handled => handled.broken)
  | timeout i => exact sound.update i (fun _ => rfl) (fun _ handled => handled.destroy)
  | gone i =>
    have kept := sound.update i gone_authorization (fun _ handled => handled.gone)
    exact kept.fewer Onward.still (fun _ _ held => held) le_rfl rfl (mapIdx_still _)
      (List.length_filter_le _ _) kept.dials
  | close => exact sound.close
theorem run_sound (events : List Event) : Sound sha256Hex object config (run config sha256Hex object events) := by
  induction events using List.reverseRecOn with
  | nil => exact new_sound
  | append_singleton before e ih =>
    rw [run,List.foldl_append]
    exact ih.step e

/-! ### One step -/

/-- The clock that an event reads for the grants. -/
def Event.clock : Event → Option Nat
  | .signal _ _ later => some later
  | .firewall _ now => some now
  | .connection _ now => some now
  | _ => none
variable (config sha256Hex object) in
theorem signal_keeps (signal : Signal) (now : Nat) {later : Nat} {k : Key} {g : Authorization}
    (held : s.authorizations.get? k = some g) (live : later < g.expiresAt) :
    (onSignal config sha256Hex object s signal now later).authorizations.get? k = some g ∨
    k = keyOf s.accepted (field signal.payload (lit "transportPublicKey")) ∧
      ∃ g', (onSignal config sha256Hex object s signal now later).authorizations.get? k = some g' ∧
        g'.serial = s.accepted ∧ g'.nostrPubkey = signal.sender := by
  have kept : (liveGrants s later).get? k = some g := IndexMap.get?_retain.mpr ⟨held,by simpa using live⟩
  rcases onSignal_cases config sha256Hex object s signal now later with same | same | same | ⟨_,_,same⟩
  · exact .inl (by rwa [same])
  · exact .inl (by rwa [same])
  · exact .inl (by rwa [same])
  · rw [same]
    dsimp only
    by_cases own : k = keyOf s.accepted (requestOf sha256Hex object signal).transportPublicKey
    · exact .inr ⟨own,_,by rw [IndexMap.get?_insert,if_pos own],rfl,rfl⟩
    · exact .inl (by rw [IndexMap.get?_insert,if_neg own]; exact kept)
variable (config sha256Hex object s) in
theorem signal_issues (signal : Signal) (now later : Nat) :
    (onSignal config sha256Hex object s signal now later).accepted = s.accepted ∨
    (onSignal config sha256Hex object s signal now later).accepted = s.accepted + 1 ∧
      ∃ k g, (onSignal config sha256Hex object s signal now later).authorizations.get? k = some g ∧
        g.serial = s.accepted ∧
        g.nostrPubkey = signal.sender ∧ g.requestId = signal.requestId ∧ later < g.expiresAt := by
  rcases onSignal_cases config sha256Hex object s signal now later with same | same | same | ⟨_,_,same⟩
  · exact .inl (by rw [same])
  · exact .inl (by rw [same])
  · exact .inl (by rw [same])
  · rw [same]
    refine .inr ⟨rfl,_,grantOf s (requestOf sha256Hex object signal) later,
      by rw [IndexMap.get?_insert,if_pos rfl],rfl,rfl,rfl,?_⟩
    simp [grantOf,requestOf]
theorem signal_sockets (signal : Signal) (now later : Nat) :
    (onSignal config sha256Hex object s signal now later).sockets = s.sockets := by
  rcases onSignal_cases config sha256Hex object s signal now later with same | same | same | ⟨_,_,same⟩ <;> rw [same]
theorem erased_free (grants : IndexMap Key Authorization) (k : Key) : (grants.erase k).get? k = none := by
  cases found : (grants.erase k).get? k with
  | none => rfl
  | some g =>
    have other := (IndexMap.get?_retain.mp found).2
    simp at other
theorem erase_others {grants : IndexMap Key Authorization} {k other : Key} {g : Authorization}
    (held : grants.get? k = some g) (differs : k ≠ other) : (grants.erase other).get? k = some g :=
  IndexMap.get?_retain.mpr ⟨held,by simpa using differs⟩
variable (config s) in
theorem accept_cases (key : Text) (now : Nat) :
    (accept config s key now).authorizations = s.authorizations.erase (.text key) ∧
    (accept config s key now).accepted = s.accepted ∧
    ((accept config s key now).sockets = s.sockets ∨ ∃ g socket, s.authorizations.get? (.text key) = some g ∧
      now < g.expiresAt ∧
      (accept config s key now).sockets = s.sockets ++ [socket] ∧ socket.key = key ∧ socket.authorization = g) := by
  rw [accept]
  cases found : s.authorizations.get? (.text key) with
  | none => exact ⟨rfl,rfl,.inl rfl⟩
  | some g =>
    dsimp only
    split
    · exact ⟨rfl,rfl,.inl rfl⟩
    · rename_i free
      rw [not_or,not_or,not_le] at free
      exact ⟨rfl,rfl,.inr ⟨g,_,rfl,free.2.1,rfl,rfl,rfl⟩⟩

variable (config sha256Hex object) in
/-- What holds of the grants of a seeder, whatever comes next. -/
structure OneUse (s : State) : Prop where
  /-- A dial that is accepted is given a grant of its own. -/
  issued : ∀ e, (step config sha256Hex object s e).accepted = s.accepted ∨
    (step config sha256Hex object s e).accepted = s.accepted + 1 ∧
      ∃ signal now later k g, e = .signal signal now later ∧
      (step config sha256Hex object s e).authorizations.get? k = some g ∧ g.serial = s.accepted ∧
      g.nostrPubkey = signal.sender ∧ g.requestId = signal.requestId
  /-- No two connections were admitted by the grant of one dial. -/
  once : (s.sockets.map (·.authorization.serial)).Nodup
  /-- A connection is handled only with a grant of its key that has not expired, which is
      gone then. -/
  admitted : ∀ e, (step config sha256Hex object s e).sockets.length = s.sockets.length ∨
    ∃ key now g socket, e = .connection key now ∧ s.authorizations.get? (.text key) = some g ∧ now < g.expiresAt ∧
      (step config sha256Hex object s e).sockets = s.sockets ++ [socket] ∧ socket.key = key ∧ socket.authorization = g ∧
      (step config sha256Hex object s e).authorizations.get? (.text key) = none
  /-- A connection is sent at most the object of its grant, for a request that repeats it. -/
  served : ∀ socket ∈ s.sockets, ∃ written ending, Served sha256Hex object socket written ending
  /-- A live grant ends with a connection from its key, a dial that names its key and is
      given the next grant, or the seeder. -/
  kept : ∀ e k g, s.authorizations.get? k = some g → (∀ now ∈ e.clock, now < g.expiresAt) →
    (step config sha256Hex object s e).authorizations.get? k = some g ∨
    (∃ key now, e = .connection key now ∧ k = .text key) ∨
    (∃ signal now later key g', e = .signal signal now later ∧ k = .text key ∧
      field signal.payload (lit "transportPublicKey") = some (.string key) ∧
      (step config sha256Hex object s e).authorizations.get? k = some g' ∧ g'.serial = s.accepted ∧
      g'.nostrPubkey = signal.sender) ∨
    e = .close
  grants : s.authorizations.length ≤ config.maxAuthorizations
  connections : s.connections.length ≤ config.maxConnections
  dials : s.handled.length ≤ maxHandled

theorem Sound.kept (sound : Sound sha256Hex object config s) {e : Event} {k : Key} {g : Authorization}
    (held : s.authorizations.get? k = some g) (live : ∀ now ∈ e.clock, now < g.expiresAt) :
    (NativeSeeder.step config sha256Hex object s e).authorizations.get? k = some g ∨
    (∃ key now, e = .connection key now ∧ k = .text key) ∨
    (∃ signal now later key g', e = .signal signal now later ∧ k = .text key ∧
      field signal.payload (lit "transportPublicKey") = some (.string key) ∧
      (NativeSeeder.step config sha256Hex object s e).authorizations.get? k = some g' ∧ g'.serial = s.accepted ∧
      g'.nostrPubkey = signal.sender) ∨
    e = .close := by
  cases e with
  | signal signal now later =>
    rcases signal_keeps sha256Hex object config signal now held (live later rfl)
      with kept | ⟨named,g',given,serial,sender⟩
    · exact .inl kept
    · refine .inr (.inr (.inl ?_))
      unfold keyOf at named
      split at named
      · rename_i key asked
        exact ⟨signal,now,later,key,g',rfl,named,asked,given,serial,sender⟩
      · -- No grant is under the key of an object yet to come.
        have old := (sound.named k g held).2 _ named
        exact absurd old.symm (Nat.ne_of_lt (sound.fresh k g held).1)
  | firewall key now =>
    left
    rw [NativeSeeder.step,firewall]
    split
    · rename_i expired
      apply erase_others held
      rintro rfl
      rw [held] at expired
      exact absurd (live now rfl) (by simpa using expired)
    · exact held
  | connection key now =>
    by_cases same : k = .text key
    · exact .inr (.inl ⟨key,now,rfl,same⟩)
    · left
      rw [NativeSeeder.step,(accept_cases _ _ key now).1]
      exact erase_others held same
  | close => exact .inr (.inr (.inr rfl))
  | data | resume | broken | timeout | gone => exact .inl held
theorem update_length (i : Nat) (f : Socket → Socket) : (s.update i f).sockets.length = s.sockets.length :=
  List.length_modify _ _ _
theorem Sound.oneUse (sound : Sound sha256Hex object config s) : OneUse sha256Hex object config s where
  issued e := by
    cases e with
    | signal signal now later =>
      rcases signal_issues sha256Hex object config s signal now later with
        same | ⟨more,k,g,given,serial,sender,request,_⟩
      · exact .inl same
      · exact .inr ⟨more,signal,now,later,k,g,rfl,given,serial,sender,request⟩
    | firewall key now =>
      left
      rw [NativeSeeder.step,firewall]
      split <;> rfl
    | connection key now => exact .inl (accept_cases _ _ key now).2.1
    | close =>
      left
      rw [NativeSeeder.step,NativeSeeder.close]
      split <;> rfl
    | data | resume | broken | timeout | gone => exact .inl rfl
  once := sound.once
  admitted e := by
    cases e with
    | signal signal now later => exact .inl (by rw [NativeSeeder.step,signal_sockets])
    | firewall key now =>
      left
      rw [NativeSeeder.step,firewall]
      split <;> rfl
    | connection key now =>
      obtain ⟨erased,_,same | ⟨g,socket,found,live,more,whose,taken⟩⟩ := accept_cases config s key now
      · exact .inl (congrArg List.length same)
      · refine .inr ⟨key,now,g,socket,rfl,found,live,more,whose,taken,?_⟩
        rw [NativeSeeder.step,erased]
        exact erased_free _ _
    | close =>
      left
      rw [NativeSeeder.step,NativeSeeder.close]
      split
      · rfl
      · exact List.length_mapIdx
    | data | resume | broken | timeout | gone => exact .inl (update_length _ _)
  served socket member := (sound.handled socket member).served
  kept _ _ _ held live := sound.kept held live
  grants := sound.grants
  connections := sound.connections
  dials := sound.dials
end

/-- In every state of every run, whatever comes next: the grant of a dial admits one
    connection, which is sent the object of the grant at most; only a dial that names its
    key displaces a live grant, and the bounds hold. -/
theorem grants_one_use (config : Config) (sha256Hex : Bytes → Text) (object : Bytes) (events : List Event) :
    OneUse sha256Hex object config (run config sha256Hex object events) :=
  (run_sound events).oneUse

/-- A dial of the empty object. -/
def dialOf (sender requestId transportPublicKey : String) : Signal where
  sender := lit sender
  type := lit "dial"
  transport := nativeTransport
  requestId := lit requestId
  payload := [(lit "transportPublicKey",.string (lit transportPublicKey)),(lit "sha256",.string (List.replicate 64 48)),
    (lit "size",.number 0)]
/-- A live grant can be displaced by a dial that another key signed. -/
theorem grant_displaced :
    ¬ ∀ (config : Config) (sha256Hex : Bytes → Text) (object : Bytes) (events : List Event) (signal : Signal)
      (now later : Nat)
        (k : Key) (g : Authorization), (run config sha256Hex object events).authorizations.get? k = some g →
          later < g.expiresAt →
        g.nostrPubkey ≠ signal.sender →
        (run config sha256Hex object (events ++ [.signal signal now later])).authorizations.get? k = some g := by
  intro kept
  have := kept {} (fun _ => List.replicate 64 48) []
    [.signal (dialOf (String.ofList (List.replicate 64 'a')) "request-a" (String.ofList (List.replicate 64 'c'))) 0 0]
    (dialOf (String.ofList (List.replicate 64 'b')) "request-b" (String.ofList (List.replicate 64 'c'))) 1 1
    (.text (List.replicate 64 99))
    ⟨0,.text (List.replicate 64 99),List.replicate 64 97,lit "request-a",List.replicate 64 48,0,30000⟩
    (by decide +kernel) (by decide) (by decide +kernel)
  revert this
  decide +kernel
end RelaySwarm.NativeSeeder
