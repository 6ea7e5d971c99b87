import RelaySwarm.Session

/-!
What a session sends another receives. What is announced reads as it was meant to every
session of the swarm (`presence_round_trip`), and what is signalled to the one it is for
(`signal_round_trip`); remembering keys changes nothing of it (`keys_transparent`).
-/
namespace RelaySwarm.Sessions
open JsonText (Text Value lit write parse field Plain Textual Paired)

/-! ### Announcements -/

variable {a : Announcement} {now : Int} {event : Event}
def Capability.value (transport : Capability) : Value :=
  .object ([(lit "type",.string transport.type),(lit "publicKey",.string transport.publicKey)] ++
    (transport.obj.map (fun obj => (lit "obj",.number obj))).toList)
def Capability.reached (transport : Capability) : Reached := ⟨transport.type,.string transport.publicKey,transport.obj⟩
/-- Every part of an announcement passes its check. -/
structure Announcement.Valid (a : Announcement) : Prop where
  ticket : ∀ ticket, a.ticket = some ticket → validTicket ticket = true
  role : validToken a.role = true
  transports : a.transports.length ≤ 8
  haves : a.haves.length ≤ 32 ∧ ∀ hash ∈ a.haves, hex64 hash = true
  each : ∀ transport ∈ a.transports, validToken transport.type = true ∧ hex64 transport.publicKey = true ∧
    ∀ obj, transport.obj = some obj → validObjectFraming obj = true
  short : byteLength (write (presenceValue a)) ≤ maxPresenceBytes

theorem framing_whole {obj : ℚ} (valid : validObjectFraming obj = true) : ∃ n : ℤ, obj = n ∧ n.natAbs < 2 ^ 53 := by
  unfold validObjectFraming at valid
  simp only [Bool.and_eq_true,decide_eq_true_eq] at valid
  obtain ⟨⟨whole,low⟩,high⟩ := valid
  have same : obj = (obj.num : ℚ) := (Rat.den_eq_one_iff obj).mp whole |>.symm
  refine ⟨obj.num,same,?_⟩
  rw [same] at low high
  have low' : (1 : ℤ) ≤ obj.num := by exact_mod_cast low
  have high' : obj.num ≤ 15 := by exact_mod_cast high
  omega
theorem capability_plain {transport : Capability}
    (framed : ∀ obj, transport.obj = some obj → validObjectFraming obj = true) :
    Plain transport.value := by
  refine .object (fun entry member => ?_) (by cases transport.obj <;> rfl)
  rcases List.mem_append.mp member with fixed | obj
  · simp only [List.mem_cons,List.not_mem_nil,or_false] at fixed
    rcases fixed with rfl | rfl
    · exact .string _
    · exact .string _
  · obtain ⟨value,given,rfl⟩ := Option.map_eq_some_iff.mp (Option.mem_toList.mp obj)
    obtain ⟨n,rfl,small⟩ := framing_whole (framed value given)
    exact .number n small
theorem presence_plain (valid : a.Valid) : Plain (presenceValue a) := by
  have transports : Plain (.array (a.transports.map Capability.value)) := by
    refine .array (fun item member => ?_)
    obtain ⟨transport,known,rfl⟩ := List.mem_map.mp member
    exact capability_plain (valid.each transport known).2.2
  have hashes : Plain (.array (a.haves.eraseDups.map .string)) := by
    refine .array (fun item member => ?_)
    obtain ⟨hash,_,rfl⟩ := List.mem_map.mp member
    exact .string _
  refine .object (fun entry member => ?_) ?_
  · rcases List.mem_append.mp member with front | ticket
    · rcases List.mem_append.mp front with fixed | opens
      · simp only [List.mem_cons,List.not_mem_nil,or_false] at fixed
        rcases fixed with rfl | rfl | rfl | rfl
        · exact .number 3 (by decide)
        · exact .string _
        · exact transports
        · exact hashes
      · obtain ⟨value,_,rfl⟩ := Option.map_eq_some_iff.mp (Option.mem_toList.mp opens)
        exact .bool value
    · obtain ⟨text,_,rfl⟩ := Option.map_eq_some_iff.mp (Option.mem_toList.mp ticket)
      exact .string text
  · cases a.isOpen <;> cases a.ticket <;> rfl
theorem eraseDups_length : ∀ (n : Nat) (texts : List Text), texts.length ≤ n → texts.eraseDups.length ≤ texts.length
  | 0,texts,short => by
    rw [List.length_eq_zero_iff.mp (Nat.le_zero.mp short)]
    rfl
  | n + 1,[],_ => Nat.le_refl 0
  | n + 1,text :: rest,short => by
    have less : (rest.filter (fun other => !other == text)).length ≤ rest.length := List.length_filter_le _ _
    have shorter := eraseDups_length n (rest.filter (fun other => !other == text)) (by simp at short; omega)
    rw [List.eraseDups_cons,List.length_cons,List.length_cons]
    omega
theorem reached_value {transport : Capability}
    (valid : validToken transport.type = true ∧ hex64 transport.publicKey = true ∧
    ∀ obj, transport.obj = some obj → validObjectFraming obj =
      true) : Session.reached transport.value = some transport.reached := by
  obtain ⟨token,key,framed⟩ := valid
  obtain ⟨fields,same,type,publicKey,obj⟩ : ∃ fields, transport.value = .object fields ∧
      field fields (lit "type") = some (.string transport.type) ∧
        field fields (lit "publicKey") = some (.string transport.publicKey) ∧
      field fields (lit "obj") = transport.obj.map .number := by
    obtain ⟨type,publicKey,obj⟩ := transport
    cases obj <;> exact ⟨_,rfl,rfl,rfl,rfl⟩
  have named : asToken (some (.string transport.type)) = some transport.type := if_pos token
  rw [same]
  simp only [Session.reached,type,publicKey,obj,named]
  rw [if_pos (by rw [coerce]; exact key)]
  cases framing : transport.obj with
  | none => simp [Capability.reached,framing]
  | some value => simp [Capability.reached,framing,framed value framing]
theorem transports_reached {transports : List Capability}
    (each : ∀ transport ∈ transports, validToken transport.type = true ∧
    hex64 transport.publicKey = true ∧ ∀ obj, transport.obj = some obj → validObjectFraming obj = true) :
    (transports.map Capability.value).mapM Session.reached = some (transports.map Capability.reached) := by
  induction transports with
  | nil => rfl
  | cons transport rest ih =>
    rw [List.map_cons,List.mapM_cons,reached_value (each transport List.mem_cons_self),
      ih (fun other member => each other (List.mem_cons_of_mem _ member))]
    rfl
theorem parse_presence (valid : a.Valid) : ∃ fields, parseObject (write (presenceValue a)) = some fields ∧
    field fields (lit "v") = some (.number version) ∧ field fields (lit "role") = some (.string a.role) ∧
    field fields (lit "transports") = some (.array (a.transports.map Capability.value)) ∧
    field fields (lit "have") = some (.array (a.haves.eraseDups.map .string)) ∧
    field fields (lit "open") = a.isOpen.map .bool ∧ field fields (lit "ticket") = a.ticket.map .string := by
  unfold parseObject
  rw [JsonText.parse_write (presence_plain valid)]
  refine ⟨_,rfl,?_⟩
  cases a.isOpen <;> cases a.ticket <;> exact ⟨rfl,rfl,rfl,rfl,rfl,rfl⟩
theorem receive_announced (valid : a.Valid) (event : Event) (content : event.content = write (presenceValue a))
    (tags : eventTagValues event (lit "p") = []) : Session.receivePresence event =
      some ⟨event.pubkey,a.role,a.transports.map Capability.reached,a.haves.eraseDups.map .string,a.isOpen,
        a.ticket⟩ := by
  obtain ⟨fields,read,v,role,transports,haves,opens,ticket⟩ := parse_presence valid
  rw [← content] at read
  have hashes : ¬ (a.haves.eraseDups.map Value.string).any (fun hash => !hex64 (coerce hash)) = true := by
    intro bad
    obtain ⟨item,member,unlike⟩ := List.any_eq_true.mp bad
    obtain ⟨hash,known,rfl⟩ := List.mem_map.mp member
    rw [coerce,valid.haves.2 hash (List.mem_eraseDups.mp known)] at unlike
    cases unlike
  have few : (a.haves.eraseDups.map Value.string).length ≤ 32 := by
    rw [List.length_map]
    exact (eraseDups_length _ _ (Nat.le_refl _)).trans valid.haves.1
  have short : ¬ (maxPresenceBytes < byteLength event.content ∨ eventTagValues event (lit "p") ≠ []) := by
    rw [content,tags]
    exact not_or.mpr ⟨Nat.not_lt.mpr valid.short,fun none => none rfl⟩
  have token : asToken (some (Value.string a.role)) = some a.role := if_pos valid.role
  have sized : ¬ (isVersion (some (Value.number version)) = false ∨ 8 < (a.transports.map Capability.value).length ∨
      32 < (a.haves.eraseDups.map Value.string).length ∨
        (a.haves.eraseDups.map Value.string).any (fun hash => !hex64 (coerce hash)) = true) := by
    rintro (none | many | many | bad)
    · simp [isVersion] at none
    · rw [List.length_map] at many
      exact absurd many (Nat.not_lt.mpr valid.transports)
    · exact absurd many (Nat.not_lt.mpr few)
    · exact hashes bad
  unfold Session.receivePresence
  rw [if_neg short]
  simp only [read,role,transports,haves,token,v]
  rw [if_neg sized,transports_reached valid.each,opens,ticket]
  cases opened : a.isOpen with
  | none =>
    cases issued : a.ticket with
    | none => rfl
    | some text =>
      simp only [Option.map_some,Option.map_none,valid.ticket text issued,if_true]
  | some value =>
    cases issued : a.ticket with
    | none => rfl
    | some text =>
      simp only [Option.map_some,valid.ticket text issued,if_true]

section
variable {S K : Type}

theorem announce_published {s s' : Session S K} {publicKey : S → Text} {connected : Bool}
    (announced : s.announcePresence publicKey a now connected = (s',[.published event])) : a.Valid ∧
      s' = { s with lastPresence := some event } ∧
      event = ⟨publicKey s.secretKey,kindPresence,now,[[swarmTag,s.swarmId]],write (presenceValue a)⟩ := by
  unfold Session.announcePresence at announced
  dsimp only at announced
  split_ifs at announced with ticket role many hashes transports long
  all_goals simp only [Prod.mk.injEq,List.cons.injEq,reduceCtorEq,and_true,and_false,Output.published.injEq]
    at announced
  obtain ⟨rfl,rfl⟩ := announced
  obtain ⟨few,hex⟩ := not_or.mp hashes
  refine ⟨⟨?_,by simpa using role,Nat.le_of_not_lt many,⟨Nat.le_of_not_lt few,?_⟩,?_,Nat.le_of_not_lt long⟩,rfl,rfl⟩
  · intro text issued
    rw [issued] at ticket
    simpa using ticket
  · simpa using hex
  · intro transport known
    simp only [List.any_eq_true,not_exists,not_and,Bool.or_eq_true,not_or,Bool.not_eq_true',Bool.not_eq_false]
      at transports
    obtain ⟨⟨token,key⟩,framed⟩ := transports transport known
    refine ⟨token,key,fun obj given => ?_⟩
    rw [given] at framed
    simpa using framed
/-- Whoever announces is heard as it was meant by every other session of the swarm, whose
    clock is not too far from its own: hashes once each, in their order. -/
theorem presence_round_trip (nip44 : Nip44 S K) (keyOf : Session S K → Text → Option K × Session S K)
    (publicKey : S → Text)
    (s s' r : Session S K) (a : Announcement) (now later : Int) (connected : Bool) (event : Event)
    (announced : s.announcePresence publicKey a now connected = (s',[.published event])) (swarm : r.swarmId = s.swarmId)
    (other : publicKey s.secretKey ≠ r.pubkey) (started : r.started = true) (safe : now.natAbs ≤ maxSafe)
    (current : -futureTolerance ≤ later - now ∧ later - now ≤ r.maxEventAgeSeconds) :
    r.receive nip44 keyOf event later = (r,[.presence
      ⟨publicKey s.secretKey,a.role,a.transports.map Capability.reached,a.haves.eraseDups.map .string,a.isOpen,
        a.ticket⟩]) := by
  obtain ⟨valid,_,rfl⟩ := announce_published announced
  have received :=
    receive_announced valid ⟨publicKey s.secretKey,kindPresence,now,[[swarmTag,s.swarmId]],write (presenceValue a)⟩ rfl
    (by simp [eventTagValues,swarmTag,show lit "x" ≠ lit "p" by decide])
  have tagged : uniqueTag ⟨publicKey s.secretKey,kindPresence,now,[[swarmTag,s.swarmId]],write (presenceValue a)⟩
      swarmTag = some r.swarmId := by
    rw [swarm]
    simp [uniqueTag,eventTagValues]
  unfold Session.receive
  rw [if_neg (by simp [started,other]),if_neg (by simp [tagged,safe])]
  dsimp only
  rw [Rat.num_intCast,if_neg (Int.not_lt.mpr current.1),if_neg (Int.not_lt.mpr current.2),if_pos rfl,received]
  rfl

def seeder : Announcement := ⟨lit "seeder",[⟨lit "hypercore",List.replicate 64 98,some 2⟩],
    [List.replicate 64 99,List.replicate 64 99],some true,none⟩
def lettered (secretKey : Nat) : Text := List.replicate 64 (96 + secretKey)
def swarmOf (secretKey : Nat) : Session Nat Nat := .create (lit "swarm-one") secretKey lettered 120
theorem seeder_announced : (swarmOf 1).announcePresence lettered seeder 1000 true =
   ({ swarmOf 1 with
     lastPresence := some ⟨List.replicate 64 97,kindPresence,(1000 : Int),[[swarmTag,lit "swarm-one"]],
     write (presenceValue seeder)⟩ },
     [.published ⟨List.replicate 64 97,kindPresence,(1000 : Int),[[swarmTag,lit "swarm-one"]],
       write (presenceValue seeder)⟩]) := by
  have ticket : ¬ seeder.ticket.any (fun ticket => !validTicket ticket) = true := by decide
  have role : ¬ validToken seeder.role = false := by decide
  have transports :
      ¬ seeder.transports.any (fun transport => !validToken transport.type || !hex64 transport.publicKey ||
      transport.obj.any (fun obj => !validObjectFraming obj)) = true := by decide +kernel
  have hashes : ¬ (32 < seeder.haves.length ∨ seeder.haves.any (fun hash => !hex64 hash) = true) := by decide +kernel
  have short : ¬ maxPresenceBytes < byteLength (write (presenceValue seeder)) := by decide +kernel
  unfold Session.announcePresence
  rw [if_neg ticket,if_neg role,if_neg (by decide),if_neg hashes,if_neg transports,if_neg short]
  rfl
theorem seeder_heard : ((swarmOf 2).start true).receive
    (⟨fun _ _ => none,fun _ _ => "",fun _ text _ => text,fun _ _ => none⟩ : Nip44 Nat Nat) (fun s _ => (none,s))
      ⟨List.replicate 64 97,kindPresence,(1000 : Int),[[swarmTag,lit "swarm-one"]],write (presenceValue seeder)⟩ 1010 =
    ((swarmOf 2).start true,[.presence ⟨List.replicate 64 97,lit "seeder",seeder.transports.map Capability.reached,
      [.string (List.replicate 64 99)],some true,none⟩]) :=
  presence_round_trip ⟨fun _ _ => none,fun _ _ => "",fun _ text _ => text,fun _ _ => none⟩ (fun s _ => (none,s))
    lettered (swarmOf 1) _
    ((swarmOf 2).start true) seeder 1000 1010 true _ seeder_announced rfl (by decide) rfl (by decide) (by decide)

/-! ### Keys that are remembered -/

section
variable [DecidableEq S] {nip44 : Nip44 S K}

/-- What is remembered is what using the peers one after the other leaves. -/
def Follows (nip44 : Nip44 S K) (used : List (Text × K)) (s : Session S K) : Prop :=
  ∀ secretKey, s.keyOwner = some secretKey →
    (∀ entry ∈ used, nip44.conversationKey secretKey entry.1 = some entry.2) ∧
      s.keys = Recent.remembers conversationKeys (nip44.conversationKey secretKey) [] (used.map (·.1))
/-- What a session does with remembered keys is what is done with keys that are derived each
    time; it stays in its swarm and keeps its name. -/
def Agrees (nip44 : Nip44 S K) (s : Session S K) (plain cached : Session S K × List Output) : Prop :=
  ∃ used, plain = ({ cached.1 with keys := used },cached.2) ∧ Follows nip44 used cached.1 ∧
    cached.1.swarmId = s.swarmId ∧ cached.1.pubkey = s.pubkey

variable {s : Session S K} {used : List (Text × K)}

omit [DecidableEq S] in
theorem follows_kept (follows : Follows nip44 used s) {secretKey : S} (owned : s.keyOwner = some secretKey) :
    Recent.Kept conversationKeys (nip44.conversationKey secretKey) s.keys := by
  rw [(follows secretKey owned).2]
  exact Recent.remembers_kept (by decide) Recent.kept_nil _
theorem key_agrees (follows : Follows nip44 used s) (pubkey : Text) : ∃ used',
    Session.derivedKey nip44 { s with keys := used } pubkey =
      (nip44.conversationKey s.secretKey pubkey,{ (s.conversationKey nip44 pubkey).2 with keys := used' }) ∧
    (s.conversationKey nip44 pubkey).1 = nip44.conversationKey s.secretKey pubkey ∧
    Follows nip44 used' (s.conversationKey nip44 pubkey).2 := by
  have current : ∃ kept, (if s.keyOwner = some s.secretKey then s.keys else []) = kept ∧
      Recent.Kept conversationKeys (nip44.conversationKey s.secretKey) kept ∧
      (∀ entry ∈ (if s.keyOwner = some s.secretKey then used else []), nip44.conversationKey s.secretKey entry.1 =
        some entry.2) ∧
      kept = Recent.remembers conversationKeys (nip44.conversationKey s.secretKey) []
        ((if s.keyOwner = some s.secretKey then used else []).map (·.1)) := by
    by_cases owned : s.keyOwner = some s.secretKey
    · rw [if_pos owned,if_pos owned]
      exact ⟨_,rfl,follows_kept follows owned,follows s.secretKey owned⟩
    · rw [if_neg owned,if_neg owned]
      exact ⟨_,rfl,Recent.kept_nil,fun _ none => (nomatch none),rfl⟩
  obtain ⟨kept,same,holds,made,recalled⟩ := current
  have answers := Recent.remember_answers holds pubkey
  unfold Session.derivedKey Session.conversationKey
  dsimp only
  rw [same]
  generalize (if s.keyOwner = some s.secretKey then used else []) = used at made recalled ⊢
  cases key : nip44.conversationKey s.secretKey pubkey with
  | none =>
    refine ⟨used,rfl,answers.trans key,?_⟩
    rintro _ ⟨⟩
    exact ⟨made,(Recent.remember_unmade holds key).trans recalled⟩
  | some key' =>
    refine ⟨used ++ [(pubkey,key')],rfl,answers.trans key,?_⟩
    rintro _ ⟨⟩
    refine ⟨fun entry member => ?_,?_⟩
    · rcases List.mem_append.mp member with old | new
      · exact made entry old
      · rw [List.mem_singleton.mp new]
        exact key
    · rw [List.map_append,List.map_singleton,Recent.remembers_snoc,← recalled]

omit [DecidableEq S] in
theorem announce_agrees (follows : Follows nip44 used s) (publicKey : S → Text) (a : Announcement) (now : Int)
    (connected : Bool) :
    Agrees nip44 s ({ s with keys := used } |>.announcePresence publicKey a now connected)
      (s.announcePresence publicKey a now connected) := by
  unfold Session.announcePresence
  dsimp only
  split_ifs <;> exact ⟨used,rfl,follows,rfl,rfl⟩
theorem send_agrees (follows : Follows nip44 used s) (publicKey : S → Text) (toPubkey type transport requestId : Text)
    (payload : List (Text × Value)) (nonce : Nat) (now : Int) (connected : Bool) :
    Agrees nip44 s ({ s with keys := used } |>.sendSignal nip44 (Session.derivedKey nip44) publicKey toPubkey type
      transport requestId payload
        nonce now connected)
      (s.sendSignal nip44 (Session.conversationKey nip44) publicKey toPubkey type transport requestId payload nonce now
        connected) := by
  obtain ⟨used',derived,answers,later⟩ := key_agrees follows toPubkey
  unfold Session.sendSignal
  by_cases recipient : hex64 toPubkey = false
  · rw [if_pos recipient,if_pos recipient]
    exact ⟨used,rfl,follows,rfl,rfl⟩
  rw [if_neg recipient,if_neg recipient]
  by_cases envelope : validToken type = false ∨ validToken transport = false ∨ validRequestId requestId = false
  · rw [if_pos envelope,if_pos envelope]
    exact ⟨used,rfl,follows,rfl,rfl⟩
  rw [if_neg envelope,if_neg envelope]
  dsimp only
  by_cases large : maxSignalPlaintextBytes < byteLength (write (signalValue type transport requestId payload))
  · rw [if_pos large,if_pos large]
    exact ⟨used,rfl,follows,rfl,rfl⟩
  rw [if_neg large,if_neg large,derived,answers]
  dsimp only
  cases nip44.conversationKey s.secretKey toPubkey with
  | none => exact ⟨used',rfl,later,rfl,rfl⟩
  | some key =>
    cases connected with
    | false => exact ⟨used',rfl,later,rfl,rfl⟩
    | true => exact ⟨used',rfl,later,rfl,rfl⟩
theorem receiveSignal_agrees (follows : Follows nip44 used s) (event : Event) (now : Int) :
    Agrees nip44 s ({ s with keys := used } |>.receiveSignal nip44 (Session.derivedKey nip44) event now)
      (s.receiveSignal nip44 (Session.conversationKey nip44) event now) := by
  obtain ⟨used',derived,answers,later⟩ := key_agrees follows event.pubkey
  unfold Session.receiveSignal
  by_cases meant : maxSignalCiphertextBytes < byteLength event.content ∨ uniqueTag event (lit "p") ≠ some s.pubkey
  · rw [if_pos meant,if_pos meant]
    exact ⟨used,rfl,follows,rfl,rfl⟩
  rw [if_neg meant,if_neg meant,derived]
  dsimp only
  rw [answers]
  split
  · exact ⟨used',rfl,later,rfl,rfl⟩
  · rename_i plaintext _
    by_cases large : maxSignalPlaintextBytes < byteLength plaintext
    · rw [if_pos large,if_pos large]
      exact ⟨used',rfl,later,rfl,rfl⟩
    · rw [if_neg large,if_neg large]
      split
      · exact ⟨used',rfl,later,rfl,rfl⟩
      · split
        · split_ifs <;> exact ⟨used',rfl,later,rfl,rfl⟩
        · exact ⟨used',rfl,later,rfl,rfl⟩
theorem receive_agrees (follows : Follows nip44 used s) (event : Event) (now : Int) :
    Agrees nip44 s ({ s with keys := used } |>.receive nip44 (Session.derivedKey nip44) event now)
      (s.receive nip44 (Session.conversationKey nip44) event now) := by
  have signal := receiveSignal_agrees follows event now
  unfold Session.receive
  dsimp only
  split_ifs
  all_goals first | exact signal | exact ⟨used,rfl,follows,rfl,rfl⟩
omit [DecidableEq S] in
theorem opens_agrees (follows : Follows nip44 used s) (now : Int) :
    Agrees nip44 s ({ s with keys := used } |>.relayOpens now) (s.relayOpens now) := by
  unfold Session.relayOpens
  dsimp only
  split
  · exact ⟨used,rfl,follows,rfl,rfl⟩
  · split_ifs <;> exact ⟨used,rfl,follows,rfl,rfl⟩
theorem step_agrees (follows : Follows nip44 used s) (publicKey : S → Text) (call : Call S) :
    Agrees nip44 s ({ s with keys := used } |>.step nip44 (Session.derivedKey nip44) publicKey call)
      (s.step nip44 (Session.conversationKey nip44) publicKey call) := by
  cases call with
  | start subscribes =>
    unfold Session.step Session.start
    dsimp only
    split_ifs <;> exact ⟨used,rfl,follows,rfl,rfl⟩
  | announce a now connected => exact announce_agrees follows publicKey a now connected
  | send toPubkey type transport requestId payload nonce now connected =>
    exact send_agrees follows publicKey toPubkey type transport requestId payload nonce now connected
  | receive event now => exact receive_agrees follows event now
  | opens now => exact opens_agrees follows now
  | rekey secretKey => exact ⟨used,rfl,follows,rfl,rfl⟩
  | close => exact ⟨[],rfl,fun _ none => (nomatch none),rfl,rfl⟩

variable (swarmId : Text) (secretKey : S) (publicKey : S → Text) (maxEventAgeSeconds : Int)

theorem run_agrees (calls : List (Call S)) :
    let fresh : Session S K := .create swarmId secretKey publicKey maxEventAgeSeconds
    Agrees nip44 fresh (fresh.run nip44 (Session.derivedKey nip44) publicKey calls)
      (fresh.run nip44 (Session.conversationKey nip44) publicKey calls) := by
  intro fresh
  induction calls using List.reverseRecOn with
  | nil => exact ⟨[],rfl,fun _ none => (nomatch none),rfl,rfl⟩
  | append_singleton calls call ih =>
    obtain ⟨used,plain,follows,swarm,name⟩ := ih
    obtain ⟨used',plain',follows',swarm',name'⟩ := step_agrees follows publicKey call
    unfold Session.run at plain follows swarm name plain' follows' swarm' name' ⊢
    rw [List.foldl_append,List.foldl_append,plain]
    dsimp only [List.foldl_cons,List.foldl_nil]
    exact ⟨used',by rw [plain'],follows',swarm'.trans swarm,name'.trans name⟩
/-- Over any calls a session that remembers keys sends and hands on what one does that derives
    each key anew, and those it remembers, 256 at most, are of the peers it used last. -/
theorem keys_transparent (calls : List (Call S)) :
    let fresh : Session S K := .create swarmId secretKey publicKey maxEventAgeSeconds
    let plain := fresh.run nip44 (Session.derivedKey nip44) publicKey calls
    let cached := fresh.run nip44 (Session.conversationKey nip44) publicKey calls
    cached.2 = plain.2 ∧ { cached.1 with keys := plain.1.keys } = plain.1 ∧
      ∀ owner, cached.1.keyOwner = some owner →
        Recent.Kept conversationKeys (nip44.conversationKey owner) cached.1.keys ∧
        ∃ older, Recent.lastUses (plain.1.keys.map (·.1)) = older ++ cached.1.keys.map (·.1) ∧
          (older ≠ [] → cached.1.keys.length = conversationKeys) := by
  intro fresh plain cached
  obtain ⟨used,same,follows,_⟩ : Agrees nip44 fresh plain cached :=
    run_agrees swarmId secretKey publicKey maxEventAgeSeconds calls
  rw [same]
  refine ⟨rfl,rfl,fun owner owned => ⟨follows_kept follows owned,?_⟩⟩
  obtain ⟨made,recalled⟩ := follows owner owned
  rw [recalled]
  refine Recent.remembers_recent (by decide) _ (fun key member => ?_)
  obtain ⟨entry,noted,rfl⟩ := List.mem_map.mp member
  rw [made entry noted]
  exact Option.some_ne_none _

/-! ### Signals -/

omit [DecidableEq S] in
theorem token_textual {text : Text} (valid : validToken text = true) : Textual (.string text) := by
  refine .string (fun unit member => ?_)
  have small : ∀ unit, (lower unit || digit unit || unit = 45) = true → unit < 0x10000 := by
    intro unit known
    simp [lower,digit] at known
    omega
  cases text with
  | nil => cases member
  | cons first rest =>
    unfold validToken at valid
    simp only [Bool.and_eq_true,List.all_eq_true] at valid
    rcases List.mem_cons.mp member with rfl | later
    · exact small unit (by rw [valid.1.1]; rfl)
    · exact small unit (valid.2 unit later)
theorem requestId_textual {text : Text} (valid : validRequestId text = true) : Textual (.string text) := by
  refine .string (fun unit member => ?_)
  unfold validRequestId at valid
  simp only [Bool.and_eq_true,List.all_eq_true] at valid
  have known := valid.2 unit member
  simp [lower,upper,digit] at known
  omega
omit [DecidableEq S] in
/-- What is published of a signal was checked in every part. -/
theorem send_published {keyOf : Session S K → Text → Option K × Session S K} {s' : Session S K}
    {toPubkey type transport requestId : Text} {payload : List (Text × Value)} {nonce : Nat} {connected : Bool}
    (sent : s.sendSignal nip44 keyOf publicKey toPubkey type transport requestId payload nonce now connected =
      (s',[.published event])) :
    validToken type = true ∧ validToken transport = true ∧ validRequestId requestId = true ∧
      byteLength (write (signalValue type transport requestId payload)) ≤ maxSignalPlaintextBytes ∧
      ∃ key, (keyOf s toPubkey).1 = some key ∧
        event = ⟨publicKey s.secretKey,kindSignal,now,[[swarmTag,s.swarmId],[lit "p",toPubkey]],
        nip44.encrypt nonce (write (signalValue type transport requestId payload)) key⟩ := by
  unfold Session.sendSignal at sent
  dsimp only at sent
  cases keyed : (keyOf s toPubkey).1 with
  | none =>
    rw [keyed] at sent
    split_ifs at sent
    all_goals simp at sent
  | some key =>
    rw [keyed] at sent
    split_ifs at sent with recipient envelope large
    all_goals simp only [Prod.mk.injEq,List.cons.injEq,reduceCtorEq,and_true,and_false,Output.published.injEq] at sent
    simp only [not_or,Bool.not_eq_false] at envelope
    exact ⟨envelope.1,envelope.2.1,envelope.2.2,Nat.le_of_not_lt large,key,rfl,sent.2.symm⟩
theorem parse_signal {payload : List (Text × Value)} (plain : Plain (.object payload))
    (type transport requestId : Text) :
    ∃ fields, parseObject (write (signalValue type transport requestId payload)) = some fields ∧
      field fields (lit "v") = some (.number version) ∧ field fields (lit "type") = some (.string type) ∧
      field fields (lit "transport") = some (.string transport) ∧
        field fields (lit "requestId") = some (.string requestId) ∧
      field fields (lit "payload") = some (.object payload) := by
  have whole : Plain (signalValue type transport requestId payload) := by
    refine .object (fun entry member => ?_) rfl
    simp only [List.mem_cons,List.not_mem_nil,or_false] at member
    rcases member with rfl | rfl | rfl | rfl | rfl
    · exact .number 3 (by decide)
    · exact .string _
    · exact .string _
    · exact .string _
    · exact plain
  unfold parseObject
  rw [JsonText.parse_write whole]
  exact ⟨_,rfl,rfl,rfl,rfl,rfl,rfl⟩
theorem signal_textual {payload : List (Text × Value)} (textual : Textual (.object payload))
    {type transport requestId : Text}
    (tokens : validToken type = true ∧ validToken transport = true) (request : validRequestId requestId = true) :
    Textual (signalValue type transport requestId payload) := by
  have names : ∀ name ∈ [lit "v",lit "type",lit "transport",lit "requestId",lit "payload"], ∀ unit ∈ name, unit <
      0x10000 := by
    decide
  refine .object (fun entry member => names entry.1 (List.mem_map_of_mem (f := Prod.fst) member))
    (fun entry member => ?_)
  · simp only [List.mem_cons,List.not_mem_nil,or_false] at member
    rcases member with rfl | rfl | rfl | rfl | rfl
    · exact .number 3 (by decide)
    · exact token_textual tokens.1
    · exact token_textual tokens.2
    · exact requestId_textual request
    · exact textual
/-- A signal that decrypts to a valid text is handed on. -/
theorem receive_sent {r : Session S K} {type transport requestId : Text} {payload : List (Text × Value)} {key : K}
    (short : byteLength event.content ≤ maxSignalCiphertextBytes) (meant : uniqueTag event (lit "p") = some r.pubkey)
    (keyed : (r.conversationKey nip44 event.pubkey).1 = some key)
    (decrypted : nip44.decrypt event.content key = some (write (signalValue type transport requestId payload)))
    (small : byteLength (write (signalValue type transport requestId payload)) ≤ maxSignalPlaintextBytes)
    (tokens : validToken type = true ∧ validToken transport = true) (request : validRequestId requestId = true)
    (plain : Plain (.object payload)) :
    (r.receiveSignal nip44 (Session.conversationKey nip44) event now).2 =
      [.signal ⟨event.pubkey,type,transport,requestId,payload⟩] := by
  obtain ⟨fields,read,v,type',transport',request',payload'⟩ := parse_signal plain type transport requestId
  have named : asToken (some (Value.string type)) = some type := if_pos tokens.1
  have carried : asToken (some (Value.string transport)) = some transport := if_pos tokens.2
  have asked : asRequestId (some (Value.string requestId)) = some requestId := if_pos request
  have current : isVersion (some (.number version)) = true := by simp [isVersion]
  unfold Session.receiveSignal
  rw [if_neg (not_or.mpr ⟨Nat.not_lt.mpr short,fun other => other meant⟩)]
  dsimp only
  rw [keyed]
  simp only [Option.bind_some,decrypted]
  rw [if_neg (Nat.not_lt.mpr small),read]
  simp only [v,type',transport',request',payload',named,carried,asked,current,asFields,if_true]
/-- What encryption between two peers is relied on for: both derive the same key, a text that is
    encrypted with it decrypts to itself, and no text grows to eight times the plaintext limit. -/
structure Nip44.Sound (nip44 : Nip44 S K) (publicKey : S → Text) : Prop where
  symmetric : ∀ a b, nip44.conversationKey a (publicKey b) = nip44.conversationKey b (publicKey a)
  decrypts : ∀ nonce key text, Paired text → text ≠ [] → byteLength text ≤ 65535 →
    nip44.decrypt (nip44.encrypt nonce text key) key = some text
  short : ∀ nonce key text, byteLength text ≤ maxSignalPlaintextBytes →
    byteLength (nip44.encrypt nonce text key) ≤ maxSignalCiphertextBytes

theorem run_keeps (calls : List (Call S)) :
    let fresh : Session S K := .create swarmId secretKey publicKey maxEventAgeSeconds
    let s := (fresh.run nip44 (Session.conversationKey nip44) publicKey calls).1
    s.swarmId = swarmId ∧ s.pubkey = publicKey secretKey ∧
      ∀ pubkey, (s.conversationKey nip44 pubkey).1 = nip44.conversationKey s.secretKey pubkey := by
  intro fresh s
  obtain ⟨used,_,follows,swarm,name⟩ : Agrees nip44 fresh _
    (fresh.run nip44 (Session.conversationKey nip44) publicKey calls) :=
    run_agrees swarmId secretKey publicKey maxEventAgeSeconds calls
  exact ⟨swarm,name,fun pubkey => (key_agrees follows pubkey).choose_spec.2.1⟩
/-- Whatever two sessions of a swarm have done, what one signals to the other is handed on there
    as it was meant, by whom it came from, while both have the secrets they began with and their
    clocks are not too far apart. -/
theorem signal_round_trip (sound : nip44.Sound publicKey) (a b : S) (agesA agesB : Int) (callsA callsB : List (Call S))
    (type transport requestId : Text) (payload : List (Text × Value)) (nonce : Nat) (now later : Int) (connected : Bool)
    (s' : Session S K) (event : Event) (plain : Plain (.object payload)) (textual : Textual (.object payload)) :
    let s := ((Session.create swarmId a publicKey agesA).run nip44 (Session.conversationKey nip44) publicKey callsA).1
    let r := ((Session.create swarmId b publicKey agesB).run nip44 (Session.conversationKey nip44) publicKey callsB).1
    s.sendSignal nip44 (Session.conversationKey nip44) publicKey r.pubkey type transport requestId payload nonce
      now connected =
      (s',[.published event]) → s.secretKey = a → r.secretKey = b → publicKey a ≠ publicKey b → r.started = true →
    now.natAbs ≤ maxSafe → -futureTolerance ≤ later - now → later - now ≤ r.maxEventAgeSeconds →
    (r.receive nip44 (Session.conversationKey nip44) event later).2 =
      [.signal ⟨publicKey a,type,transport,requestId,payload⟩] := by
  intro s r sent ownA ownB other started safe ahead stale
  obtain ⟨swarmA,nameA,keysA⟩ : s.swarmId = swarmId ∧ s.pubkey = publicKey a ∧
      ∀ pubkey, (s.conversationKey nip44 pubkey).1 = nip44.conversationKey s.secretKey pubkey :=
    run_keeps swarmId a publicKey agesA callsA
  obtain ⟨swarmB,nameB,keysB⟩ : r.swarmId = swarmId ∧ r.pubkey = publicKey b ∧
      ∀ pubkey, (r.conversationKey nip44 pubkey).1 = nip44.conversationKey r.secretKey pubkey :=
    run_keeps swarmId b publicKey agesB callsB
  obtain ⟨token,carrier,request,small,key,derived,published⟩ := send_published publicKey sent
  have shared : (r.conversationKey nip44 event.pubkey).1 = some key := by
    rw [published,ownA,keysB,ownB,sound.symmetric b a,← derived,keysA,ownA,nameB]
  have paired := JsonText.write_paired (signal_textual textual ⟨token,carrier⟩ request)
  have filled : write (signalValue type transport requestId payload) ≠ [] := by
    unfold signalValue
    rw [write]
    exact List.cons_ne_nil _ _
  have decrypted : nip44.decrypt event.content key = some (write (signalValue type transport requestId payload)) := by
    rw [published]
    exact sound.decrypts nonce key _ paired filled (small.trans (by decide))
  have short : byteLength event.content ≤ maxSignalCiphertextBytes := by
    rw [published]
    exact sound.short nonce key _ small
  have meant : uniqueTag event (lit "p") = some r.pubkey := by
    simp [published,uniqueTag,eventTagValues,swarmTag,show lit "x" ≠ lit "p" by decide]
  have tagged : uniqueTag event swarmTag = some r.swarmId := by
    simp [published,uniqueTag,eventTagValues,swarmTag,show lit "p" ≠ lit "x" by decide,swarmA,swarmB]
  have received : (r.receiveSignal nip44 (Session.conversationKey nip44) event later).2 =
      [.signal ⟨event.pubkey,type,transport,requestId,payload⟩] :=
    receive_sent short meant shared decrypted small ⟨token,carrier⟩ request plain
  have pubkey : event.pubkey = publicKey a := by rw [published,ownA]
  have kind : event.kind = kindSignal := by rw [published]
  have created : event.createdAt = now := by rw [published]
  unfold Session.receive
  rw [if_neg (by simp [started,pubkey,nameB,other,kind]),if_neg (by simp [tagged,safe,created])]
  dsimp only
  rw [created,Rat.num_intCast,if_neg (Int.not_lt.mpr ahead),if_neg (Int.not_lt.mpr stale),kind,if_neg (by decide),
    received,pubkey]

end

/-- Two of ten secrets share their sum, and a text is sealed with it. -/
def sealing : Nip44 (Fin 10) Nat where
  conversationKey secretKey pubkey := pubkey.getLast?.map (fun unit => secretKey.val + (unit - 48))
  refusal _ _ := "invalid public key"
  encrypt _ text key := key % 64 :: text
  decrypt text key := if text.head? = some (key % 64) then some text.tail else none
def named (secretKey : Fin 10) : Text := List.replicate 63 48 ++ [48 + secretKey.val]
theorem sealing_sound : sealing.Sound named where
  symmetric a b := by simp [sealing,named,Nat.add_comm]
  decrypts nonce key text _ _ _ := by simp [sealing]
  short nonce key text small := by
    have ascii : key % 64 < 128 := by omega
    have bytes : byteLength (key % 64 :: text) = 1 + byteLength text := by
      unfold byteLength
      rw [JsonText.utf8Bytes_unit (JsonText.ascii_whole ascii),List.length_append]
      simp [JsonText.pointBytes,ascii]
    have small' : byteLength text ≤ 8192 := small
    exact bytes.trans_le (by unfold maxSignalCiphertextBytes; omega)
theorem signal_sealed :
    (((Session.create (lit "swarm-one") 2 named 120).run sealing (Session.conversationKey sealing) named
      [.start true]).1.receive sealing
        (Session.conversationKey sealing) ⟨named 1,kindSignal,(1000 : Int),
          [[swarmTag,lit "swarm-one"],[lit "p",named 2]],
          sealing.encrypt 0 (write (signalValue (lit "offer") (lit "webrtc") (lit "request-1")
            [(lit "sdp",.string (lit "v=0"))])) 3⟩ 1010).2 =
      [.signal ⟨named 1,lit "offer",lit "webrtc",lit "request-1",[(lit "sdp",.string (lit "v=0"))]⟩] :=
  signal_round_trip (lit "swarm-one") named sealing_sound 1 2 120 120 [] [.start true] (lit "offer") (lit "webrtc")
    (lit "request-1")
    [(lit "sdp",.string (lit "v=0"))] 0 1000 1010 true _ _
    (.object (by rintro _ (_ | ⟨_,⟨⟩⟩); exact .string _) rfl)
    (.object (by decide) (by rintro _ (_ | ⟨_,⟨⟩⟩); exact .string (by decide)))
    rfl rfl rfl (by decide) rfl (by decide) (by decide) (by decide)

end
end RelaySwarm.Sessions
