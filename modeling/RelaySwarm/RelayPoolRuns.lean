import RelaySwarm.RelayPool
import Mathlib.Data.List.Count
import Mathlib.Data.List.Induction

/-!
A pool of relay sockets over every order of openings, failures, closings and calls. Every
open socket carries exactly the live subscriptions, and a pool that reconnects never loses
its lines (`pool_kept`); what is handed on was subscribed to and proved, and not lately
handed on (`pool_delivers`).
-/
namespace RelaySwarm.IndexMap
variable {κ α : Type} [DecidableEq κ]

theorem foldl_insert (m : IndexMap κ α) : m.entries.foldl (fun kept entry => kept.insert entry.1 entry.2)
    (empty : IndexMap κ α) = m := by
  have prefixes : ∀ (entries : List (κ × α)) (distinct : (entries.map (·.1)).Nodup),
      entries.foldl (fun kept entry => kept.insert entry.1 entry.2) (empty : IndexMap κ α) = ⟨entries,distinct⟩ := by
    intro entries
    induction entries using List.reverseRecOn with
    | nil => exact fun _ => rfl
    | append_singleton entries entry ih =>
      intro distinct
      rw [List.map_append,List.nodup_append] at distinct
      have absent : ¬ (⟨entries,distinct.1⟩ : IndexMap κ α).contains entry.1 = true := by
        intro present
        exact distinct.2.2 entry.1 (contains_iff.mp present) entry.1 (by simp) rfl
      rw [List.foldl_append,ih distinct.1]
      refine ext ?_
      simp only [List.foldl_cons,List.foldl_nil,insert,dif_neg absent]
  exact prefixes m.entries m.distinct

end RelaySwarm.IndexMap

namespace RelaySwarm.RelayPool
variable {F E : Type}

/-! ### What a socket carries -/

theorem served_reqs (subscriptions : IndexMap String F) (replays : List E) :
    served (subscriptions.entries.map (fun entry => .req entry.1 entry.2) ++ replays.map .event) = subscriptions := by
  unfold served
  rw [List.foldl_append,List.foldl_map,List.foldl_map]
  have events : ∀ m : IndexMap String F, replays.foldl (fun kept _ => kept) m = m := by
    intro m
    induction replays with
    | nil => rfl
    | cons e rest ih => exact ih
  rw [events]
  exact subscriptions.foldl_insert
/-- Every open socket carries the live subscriptions. -/
def Subscribed (p : Pool F E) : Prop :=
  ∀ socket ∈ p.sockets, socket.isOpen = true → served socket.wire = p.subscriptions

/-! ### Lists with one entry changed -/

section
variable {α : Type} {l : List α} {i : Nat} {a : α} (holds : α → Bool)

theorem countP_replace (found : l[i]? = some a) (b : α) :
    (l.set i b).countP holds + (if holds a then 1 else 0) = l.countP holds + (if holds b then 1 else 0) := by
  obtain ⟨inside,rfl⟩ := List.getElem?_eq_some_iff.mp found
  have least := List.boole_getElem_le_countP (p := holds) inside
  rw [List.countP_set inside]
  omega
theorem countP_without (found : l[i]? = some a) :
    (l.eraseIdx i).countP holds + (if holds a then 1 else 0) = l.countP holds := by
  induction l generalizing i with
  | nil => simp at found
  | cons first rest ih =>
    cases i with
    | zero =>
      cases found
      rw [List.eraseIdx_cons_zero,List.countP_cons]
    | succ i =>
      have rest' := ih found
      rw [List.eraseIdx_cons_succ,List.countP_cons,List.countP_cons]
      omega

end

/-! ### The invariant -/

def Socket.line (url : String) (socket : Socket F E) : Bool :=
  socket.url = url && (socket.phase = .pending || socket.phase = .opened || socket.phase = .owed)
theorem Socket.gone {socket : Socket F E} (shut : socket.phase = .refused ∨ socket.phase = .dropped) :
    (∀ url, socket.line url = false) ∧ socket.isOpen = false ∧ socket.phase ≠ .pending ∧ socket.phase ≠ .opened ∧
      socket.phase ≠ .owed := by
  rcases shut with shut | shut <;> simp [Socket.line,Socket.isOpen,shut]
/-- A first attempt that is not done with. -/
def Socket.first (socket : Socket F E) : Prop := socket.phase = .pending ∧ socket.retry = none ∨ socket.phase = .owed

structure Sound (settings : Settings) (p : Pool F E) : Prop where
  subscribed : Subscribed p
  ended : p.closed = true → p.connected = false ∧ p.retryTimers = [] ∧ p.subscriptions = .empty ∧
    ∀ socket ∈ p.sockets, socket.phase ≠ .pending ∧ socket.phase ≠ .opened
  started : p.closed = false → (p.connected = true ↔ p.batches ≠ [])
  few : ∀ url, p.lines url ≤ p.batches.length
  kept : settings.reconnect = true → p.closed = false → p.batches ≠ [] → ∀ url ∈ settings.urls, 1 ≤ p.lines url
  attended : p.closed = false → ∀ i socket, p.sockets[i]? = some socket → socket.first →
    ∃ batch ∈ p.batches, batch.settled = false ∧ i ∈ batch.members

theorem sound_new (settings : Settings) : Sound settings (Pool.new : Pool F E) := by
  constructor <;> simp [Pool.new,Subscribed,Pool.lines]

namespace Sound
variable {settings : Settings} {p : Pool F E}

theorem connected_open (sound : Sound settings p) (connected : p.connected = true) : p.closed = false := by
  by_contra closed
  have off := (sound.ended (by simpa using closed)).1
  rw [connected] at off
  cases off
theorem lines_set {i : Nat} {socket : Socket F E} (found : p.sockets[i]? = some socket) (socket' : Socket F E)
    (timers : List Retry) (url : String) : ({ p.set i socket' with retryTimers := timers } : Pool F E).lines url +
      ((if socket.line url then 1 else 0) + p.retryTimers.countP (·.url = url)) =
    p.lines url + ((if socket'.line url then 1 else 0) + timers.countP (·.url = url)) := by
  have replaced := countP_replace (Socket.line url) found socket'
  show (p.sockets.set i socket').countP (Socket.line url) + timers.countP (·.url = url) + (_ + _) =
    p.sockets.countP (Socket.line url) + p.retryTimers.countP (·.url = url) + (_ + _)
  omega
/-- One socket is changed, and dials to come with it. No line is gained, and one is lost only
    beside another. -/
theorem replace (sound : Sound settings p) {i : Nat} {socket : Socket F E} (found : p.sockets[i]? = some socket)
    (socket' : Socket F E) (timers : List Retry)
    (opened : socket'.isOpen = true → served socket'.wire = p.subscriptions)
    (closed : p.closed = true → timers = [] ∧ socket'.phase ≠ .pending ∧ socket'.phase ≠ .opened)
    (gains : ∀ url, (if socket'.line url then 1 else 0) + timers.countP (·.url = url) ≤
      (if socket.line url then 1 else 0) + p.retryTimers.countP (·.url = url))
    (keeps : settings.reconnect = true → p.closed = false → p.batches ≠ [] → ∀ url,
      (if socket.line url then 1 else 0) + p.retryTimers.countP (·.url = url) ≤
        (if socket'.line url then 1 else 0) + timers.countP (·.url = url) ∨
      ∃ other ∈ p.sockets.set i socket', other.line url = true)
    (first : socket'.first → socket.first) : Sound settings { p.set i socket' with retryTimers := timers } := by
  have was : ∀ other ∈ p.sockets.set i socket', other = socket' ∨ other ∈ p.sockets :=
    fun other member => (List.mem_or_eq_of_mem_set member).symm
  refine ⟨?_,?_,sound.started,fun url => ?_,?_,?_⟩
  · intro other member here
    rcases was other member with rfl | old
    · exact opened here
    · exact sound.subscribed other old here
  · intro exceeds
    obtain ⟨off,_,none,dead⟩ := sound.ended exceeds
    refine ⟨off,(closed exceeds).1,none,fun other member => ?_⟩
    rcases was other member with rfl | old
    · exact (closed exceeds).2
    · exact dead other old
  · have same := lines_set found socket' timers url
    have few := sound.few url
    have gain := gains url
    show ({ p.set i socket' with retryTimers := timers } : Pool F E).lines url ≤ p.batches.length
    omega
  · intro reconnect going called url known
    have filled := sound.kept reconnect going called url known
    rcases keeps reconnect going called url with enough | ⟨other,member,line⟩
    · have same := lines_set found socket' timers url
      omega
    · have one := List.countP_pos_iff.mpr ⟨other,member,line⟩
      exact Nat.le_add_right_of_le one
  · intro going j other found' first'
    by_cases same : i = j
    · subst same
      have inside := (List.getElem?_eq_some_iff.mp found).1
      have other' : other = socket' := by
        have lies : (p.sockets.set i socket')[i]? = some other := found'
        rw [List.getElem?_set_self inside] at lies
        exact (Option.some.inj lies).symm
      subst other'
      exact sound.attended going i socket found (first first')
    · have lies : (p.sockets.set i socket')[j]? = some other := found'
      rw [List.getElem?_set_ne same] at lies
      exact sound.attended going j other lies first'
theorem redials (sound : Sound settings p) {i : Nat} {socket : Socket F E} (found : p.sockets[i]? = some socket)
    (gone : Socket F E) (shut : gone.phase = .refused ∨ gone.phase = .dropped)
    (line : ∀ url, socket.line url = (socket.url = url : Bool)) (going : p.closed = false) (attempt : Nat)
    (random : Random) : Sound settings ((p.set i gone).redial settings socket.url attempt random) := by
  obtain ⟨lost,off,pending,opened,owed⟩ := Socket.gone shut
  unfold Pool.redial
  rw [if_neg (by rw [show (p.set i gone).closed = p.closed from rfl,going]; simp)]
  have same (url : String) :
      (p.retryTimers ++ [(⟨socket.url,attempt,Pool.delay settings attempt random⟩ : Retry)]).countP
      (fun retry : Retry => retry.url = url) = p.retryTimers.countP (·.url = url) + if socket.line url then 1
        else 0 := by
    rw [List.countP_append,List.countP_singleton,line url]
  refine sound.replace found gone (p.retryTimers ++ [⟨socket.url,attempt,Pool.delay settings attempt random⟩]) ?_
    (fun closed => (nomatch going.symm.trans closed)) (fun url => ?_) (fun _ _ _ url => .inl ?_) ?_
  · simp [off]
  · rw [same,lost]
    simp only [Bool.false_eq_true,if_false]
    omega
  · rw [same,lost]
    simp only [Bool.false_eq_true,if_false]
    omega
  · simp [Socket.first,pending,owed]

theorem refuse (sound : Sound settings p) (i : Nat) (random : Random) :
    Sound settings (p.refuse settings i random) := by
  unfold Pool.refuse
  cases found : p.sockets[i]? with
  | none => exact sound
  | some socket =>
    dsimp only
    by_cases pending : socket.phase = .pending
    · rw [if_pos pending]
      have line (url : String) : socket.line url = (socket.url = url : Bool) := by simp [Socket.line,pending]
      have going : p.closed = false := by
        by_contra closed
        exact ((sound.ended (by simpa using closed)).2.2.2 socket (List.mem_of_getElem? found)).1 pending
      generalize owes : ({ socket with phase := .owed } : Socket F E) = owing
      generalize goes : ({ socket with phase := .refused } : Socket F E) = gone
      have owed (url : String) : owing.line url = (socket.url = url : Bool) := by simp [Socket.line,← owes]
      have shut : gone.phase = .refused := by rw [← goes]
      cases retry : socket.retry with
      | none =>
        refine sound.replace found owing p.retryTimers (by rw [← owes]; exact fun none => (nomatch none))
          (fun closed => (nomatch going.symm.trans closed)) (fun url => ?_) (fun _ _ _ url => .inl ?_)
            (fun _ => .inl ⟨pending,retry⟩)
        · rw [owed,line]
        · rw [owed,line]
      | some attempt =>
        dsimp only
        split_ifs with alone
        · exact sound.redials found gone (.inl shut) line going (attempt + 1) random
        · refine sound.replace found gone p.retryTimers (by simp [Socket.isOpen,shut])
            (fun closed => (nomatch going.symm.trans closed)) (fun url => ?_) (fun _ _ called url => ?_)
              (by simp [Socket.first,shut])
          · simp [Socket.line,shut]
          · by_cases same : socket.url = url
            · have connected : p.connected = true := (sound.started going).mpr called
              have other : ∃ other ∈ p.sockets.set i gone, (other.isOpen && other.url == socket.url) = true := by
                by_contra none
                exact alone ⟨connected,by simpa [Pool.set] using none⟩
              obtain ⟨other,member,here⟩ := other
              refine .inr ⟨other,member,?_⟩
              simp [Socket.isOpen,Socket.line] at here ⊢
              exact ⟨here.2.trans same,.inl (.inr here.1)⟩
            · left
              simp [line,same]
    · rw [if_neg pending]
      exact sound
theorem goes (sound : Sound settings p) {i : Nat} {socket : Socket F E} (found : p.sockets[i]? = some socket)
    (gone : Socket F E) (shut : gone.phase = .refused ∨ gone.phase = .dropped)
    (exceeds : settings.reconnect = true → p.closed = false → p.batches ≠ [] →
      False) : Sound settings (p.set i gone) := by
  obtain ⟨lost,off,pending,opened,owed⟩ := Socket.gone shut
  refine sound.replace found gone p.retryTimers ?_ (fun closed => ⟨(sound.ended closed).2.1,?_,?_⟩) (fun url => ?_)
    (fun reconnect going called => (exceeds reconnect going called).elim) ?_
  · simp [off]
  · exact pending
  · exact opened
  · rw [lost]
    simp
  · simp [Socket.first,pending,owed]
theorem closes (sound : Sound settings p) (i : Nat) (random : Random) :
    Sound settings (p.closes settings i random) := by
  unfold Pool.closes
  cases found : p.sockets[i]? with
  | none => exact sound
  | some socket =>
    dsimp only
    by_cases here : socket.isOpen = true
    · rw [if_pos here]
      have opened : socket.phase = .opened := of_decide_eq_true here
      have going : p.closed = false := by
        by_contra closed
        exact ((sound.ended (by simpa using closed)).2.2.2 socket (List.mem_of_getElem? found)).2 opened
      split_ifs with again
      · exact sound.redials found { socket with phase := .dropped } (.inr rfl) (fun url => by simp [Socket.line,opened])
          going 1 random
      · refine sound.goes found { socket with phase := .dropped } (.inr rfl) (fun reconnect going called => ?_)
        exact again ⟨reconnect,(sound.started going).mpr called⟩
    · rw [if_neg here]
      exact sound.refuse i random
theorem owe (sound : Sound settings p) (i : Nat) (random : Random) : Sound settings (p.owe settings i random) := by
  unfold Pool.owe
  cases found : p.sockets[i]? with
  | none => exact sound
  | some socket =>
    dsimp only
    split_ifs with owed again
    · by_cases closed : p.closed = true
      · unfold Pool.redial
        rw [if_pos (show (p.set i { socket with phase := .refused }).closed = true from closed)]
        exact sound.goes found { socket with phase := .refused } (.inl rfl)
          (fun _ going => (nomatch going.symm.trans closed))
      · exact sound.redials found { socket with phase := .refused } (.inl rfl) (fun url => by simp [Socket.line,owed])
          (by simpa using closed) 1 random
    · exact sound.goes found { socket with phase := .refused } (.inl rfl) (fun reconnect => absurd reconnect again)
    · exact sound

end Sound

theorem owes_batches (settings : Settings) (random : Nat → Random) (members : List Nat) (p : Pool F E) :
    (members.foldl (fun p i => p.owe settings i (random i)) p).batches = p.batches := by
  induction members generalizing p with
  | nil => rfl
  | cons i rest ih =>
    have one : (p.owe settings i (random i)).batches = p.batches := by
      unfold Pool.owe Pool.redial
      cases p.sockets[i]? with
      | none => rfl
      | some socket =>
        dsimp only
        split_ifs <;> rfl
    exact (ih _).trans one
theorem owes_at (settings : Settings) (random : Nat → Random) (members : List Nat) (p : Pool F E) {j : Nat}
    {socket' : Socket F E}
    (found : (members.foldl (fun p i => p.owe settings i (random i)) p).sockets[j]? = some socket') :
    socket'.phase = .refused ∨ p.sockets[j]? = some socket' ∧ (j ∈ members → socket'.phase ≠ .owed) := by
  have one (p : Pool F E) (i : Nat) : (p.owe settings i (random i)).sockets = p.sockets ∧
      (∀ socket, p.sockets[i]? = some socket → socket.phase ≠ .owed) ∨
      ∃ socket : Socket F E, (p.owe settings i (random i)).sockets =
        p.sockets.set i { socket with phase := .refused } := by
    unfold Pool.owe
    cases here : p.sockets[i]? with
    | none => exact .inl ⟨rfl,fun _ none => (nomatch none)⟩
    | some socket =>
      dsimp only
      split_ifs with owed
      · refine .inr ⟨socket,?_⟩
        unfold Pool.redial
        split_ifs <;> rfl
      · exact .inr ⟨socket,rfl⟩
      · refine .inl ⟨rfl,fun other same => ?_⟩
        cases same
        exact owed
  induction members generalizing p with
  | nil => exact .inr ⟨found,fun none => (nomatch none)⟩
  | cons i rest ih =>
    rcases ih (p.owe settings i (random i)) found with refused | ⟨before,unowed⟩
    · exact .inl refused
    · rcases one p i with ⟨same,other⟩ | ⟨socket,changed⟩
      · rw [same] at before
        refine .inr ⟨before,fun member => ?_⟩
        rcases List.mem_cons.mp member with rfl | later
        · exact other socket' before
        · exact unowed later
      · rw [changed] at before
        by_cases same : i = j
        · subst same
          have inside : i < p.sockets.length := by
            rw [← List.length_set]
            exact (List.getElem?_eq_some_iff.mp before).1
          rw [List.getElem?_set_self inside] at before
          cases before
          exact .inl rfl
        · rw [List.getElem?_set_ne same] at before
          exact .inr ⟨before,fun member => unowed ((List.mem_cons.mp member).resolve_left (Ne.symm same))⟩

namespace Sound
variable {settings : Settings} {p : Pool F E}

theorem owes (sound : Sound settings p) (random : Nat → Random) (members : List Nat) :
    Sound settings (members.foldl (fun p i => p.owe settings i (random i)) p) := by
  induction members generalizing p with
  | nil => exact sound
  | cons i rest ih => exact ih (sound.owe i (random i))
theorem settles (sound : Sound settings p) (b : Nat) (random : Nat → Random) :
    Sound settings (p.settles settings b random) := by
  unfold Pool.settles
  cases found : p.batches[b]? with
  | none => exact sound
  | some batch =>
    dsimp only
    split_ifs with waits
    · exact sound
    · obtain ⟨_,done⟩ := not_or.mp waits
      have owes := sound.owes random batch.members
      have settled : ∀ i ∈ batch.members, ∀ socket,
          (batch.members.foldl (fun p i => p.owe settings i (random i)) p).sockets[i]? =
          some socket → ¬ socket.first := by
        intro i member socket here first
        rcases owes_at settings random batch.members p here with refused | ⟨before,unowed⟩
        · rcases first with ⟨pending,_⟩ | owed
          · rw [refused] at pending
            cases pending
          · rw [refused] at owed
            cases owed
        · rcases first with ⟨pending,_⟩ | owed
          · exact done (List.any_eq_true.mpr ⟨i,member,by rw [before]; simpa using pending⟩)
          · exact unowed member owed
      have batches := owes_batches settings random batch.members p
      generalize batch.members.foldl (fun p i => p.owe settings i (random i)) p = q at owes settled batches ⊢
      have count : (q.batches.set b { batch with settled := true }).length = q.batches.length := List.length_set
      have none : q.batches.set b { batch with settled := true } ≠ [] ↔ q.batches ≠ [] := by simp
      refine { owes with
        started := fun going => (owes.started going).trans none.symm, few :=
          fun url => (owes.few url).trans (le_of_eq count.symm)
        kept := fun reconnect going called => owes.kept reconnect going (none.mp called)
        attended := fun going i socket here first => ?_ }
      obtain ⟨other,member,isOpen,inside⟩ := owes.attended going i socket here first
      obtain ⟨k,here'⟩ := List.mem_iff_getElem?.mp member
      by_cases same : b = k
      · subst same
        rw [batches,found] at here'
        cases here'
        exact absurd first (settled i inside socket here)
      · refine ⟨other,?_,isOpen,inside⟩
        refine List.mem_of_getElem? (i := k) ?_
        rw [List.getElem?_set_ne same]
        exact here'

/-! ### Sockets that are made and told -/

theorem connects (urls : List String) (p : Pool F E) : urls.foldl (fun p url => p.connectOne url none) p =
    { p with sockets := p.sockets ++ urls.map (fun url => ⟨url,.pending,none,[]⟩) } := by
  induction urls generalizing p with
  | nil => simp
  | cons url rest ih =>
    rw [List.foldl_cons,ih]
    simp [Pool.connectOne]
theorem connect (sound : Sound settings p) : Sound settings (p.connect settings) := by
  unfold Pool.connect
  rw [connects]
  by_cases idle : p.closed = true ∨ (p.connected = true ∧ p.anyOpen = true) ∨ p.connecting = true
  · rw [if_pos idle]
    exact sound
  rw [if_neg idle]
  have going : p.closed = false := by simpa using (not_or.mp idle).1
  have fresh : ∀ socket ∈ settings.urls.map (fun url => (⟨url,.pending,none,[]⟩ : Socket F E)),
      ∃ url ∈ settings.urls, socket = ⟨url,.pending,none,[]⟩ := by
    intro socket member
    obtain ⟨url,known,rfl⟩ := List.mem_map.mp member
    exact ⟨url,known,rfl⟩
  have new (url : String) : (settings.urls.map (fun url => (⟨url,.pending,none,[]⟩ : Socket F E))).countP
      (Socket.line url) = settings.urls.count url := by
    rw [List.countP_map,List.count]
    refine List.countP_congr (fun other _ => ?_)
    simp [Socket.line]
  have lines (url : String) : ({ p with
      sockets := p.sockets ++ settings.urls.map (fun url => ⟨url,.pending,none,[]⟩) } : Pool F E).lines url =
      p.lines url + settings.urls.count url := by
    have both :
        (p.sockets ++ settings.urls.map (fun url => (⟨url,.pending,none,[]⟩ : Socket F E))).countP (Socket.line url) =
        p.sockets.countP (Socket.line url) + settings.urls.count url := by rw [List.countP_append,new]
    show (p.sockets ++ _).countP (Socket.line url) + p.retryTimers.countP _ =
      p.sockets.countP (Socket.line url) + p.retryTimers.countP _ + _
    rw [both]
    omega
  refine ⟨?_,fun closed => (nomatch going.symm.trans closed),
    fun _ => by simp,fun url => ?_,fun _ _ _ url known => ?_,?_⟩
  · intro socket member here
    rcases List.mem_append.mp member with old | made
    · exact sound.subscribed socket old here
    · obtain ⟨_,_,rfl⟩ := fresh socket made
      cases here
  · have few := sound.few url
    have once := List.nodup_iff_count_le_one.mp settings.distinct url
    refine (le_of_eq (lines url)).trans ?_
    rw [List.length_append,List.length_singleton]
    omega
  · have one := List.count_pos_iff.mpr known
    refine le_trans ?_ (le_of_eq (lines url).symm)
    omega
  · intro _ i socket found first
    have found' : (p.sockets ++ settings.urls.map (fun url => (⟨url,.pending,none,[]⟩ : Socket F E)))[i]? =
        some socket := found
    by_cases old : i < p.sockets.length
    · rw [List.getElem?_append_left old] at found'
      obtain ⟨batch,member,rest⟩ := sound.attended going i socket found' first
      exact ⟨batch,List.mem_append_left _ member,rest⟩
    · refine ⟨⟨List.range' p.sockets.length settings.urls.length,false⟩,
        List.mem_append_right _ (List.mem_singleton_self _),rfl,?_⟩
      have inside := (List.getElem?_eq_some_iff.mp found').1
      rw [List.length_append,List.length_map] at inside
      exact List.mem_range'_1.mpr ⟨Nat.le_of_not_lt old,inside⟩
theorem opens (sound : Sound settings p) (i : Nat) (replays : List E) :
    Sound settings (p.opens settings i replays) := by
  unfold Pool.opens
  cases found : p.sockets[i]? with
  | none => exact sound
  | some socket =>
    dsimp only
    split_ifs with opens
    · have opened := sound.replace found
        { socket with
          phase := .opened, wire :=
            p.subscriptions.entries.map (fun entry => .req entry.1 entry.2) ++ replays.map .event }
        p.retryTimers (fun _ => served_reqs p.subscriptions replays) (fun closed => (nomatch opens.2.symm.trans closed))
        (fun url => by simp [Socket.line,opens.1]) (fun _ _ _ url => .inl (by simp [Socket.line,opens.1]))
        (fun first => by rcases first with ⟨none,_⟩ | none <;> cases none)
      exact { opened with }
    · exact sound
theorem dials (sound : Sound settings p) (k : Nat) : Sound settings (p.redials k) := by
  unfold Pool.redials
  cases found : p.retryTimers[k]? with
  | none => exact sound
  | some retry =>
    have without (url : String) := countP_without (fun other : Retry => other.url = url) found
    have going : p.closed = false := by
      by_contra closed
      rw [(sound.ended (by simpa using closed)).2.1] at found
      simp at found
    dsimp only
    by_cases connected : p.connected = true
    · rw [if_pos connected]
      have lines (url : String) : (({ p with retryTimers := p.retryTimers.eraseIdx k } : Pool F E).connectOne retry.url
          (some retry.attempt)).lines url = p.lines url := by
        have gone := without url
        show (p.sockets ++ [_]).countP (Socket.line url) + (p.retryTimers.eraseIdx k).countP _ =
          p.sockets.countP (Socket.line url) + p.retryTimers.countP _
        rw [List.countP_append,List.countP_singleton]
        simp only [Socket.line,decide_true,Bool.true_or,Bool.and_true]
        omega
      refine ⟨?_,fun closed => (nomatch going.symm.trans closed),sound.started,
        fun url => (le_of_eq (lines url)).trans (sound.few url),
        fun reconnect isOpen called url known =>
          (sound.kept reconnect isOpen called url known).trans (le_of_eq (lines url).symm),
        ?_⟩
      · intro socket member here
        rcases List.mem_append.mp member with old | made
        · exact sound.subscribed socket old here
        · rw [List.mem_singleton.mp made] at here
          cases here
      · intro _ i socket lies first
        have lies' : (p.sockets ++ [(⟨retry.url,.pending,some retry.attempt,[]⟩ : Socket F E)])[i]? = some socket :=
          lies
        by_cases old : i < p.sockets.length
        · rw [List.getElem?_append_left old] at lies'
          exact sound.attended going i socket lies' first
        · rw [List.getElem?_append_right (Nat.le_of_not_lt old)] at lies'
          rw [List.mem_singleton.mp (List.mem_of_getElem? lies')] at first
          rcases first with ⟨_,none⟩ | none <;> cases none
    · rw [if_neg connected]
      refine { sound with
        ended := fun closed => (nomatch going.symm.trans closed), few := fun url => ?_
        kept := fun _ _ called => absurd ((sound.started going).mpr called) connected }
      have gone := without url
      have less : (p.retryTimers.eraseIdx k).countP (·.url = url) ≤ p.retryTimers.countP (·.url = url) := by
        omega
      exact (Nat.add_le_add_left less _).trans (sound.few url)
theorem broadcasts (sound : Sound settings p) (subscriptions : IndexMap String F) (frame : Frame F E)
    (tells : ∀ wire : List (Frame F E), served wire = p.subscriptions → served (wire ++ [frame]) = subscriptions)
    (going : p.closed = false) : Sound settings (({ p with subscriptions } : Pool F E).broadcast frame) := by
  have told (socket : Socket F E) :
      ∃ wire, (if socket.isOpen then { socket with wire := socket.wire ++ [frame] } else socket) =
      { socket with wire } := by
    split_ifs
    · exact ⟨_,rfl⟩
    · exact ⟨socket.wire,rfl⟩
  have lines (url : String) : (({ p with subscriptions } : Pool F E).broadcast frame).lines url = p.lines url := by
    show (p.sockets.map _).countP (Socket.line url) + p.retryTimers.countP _ =
      p.sockets.countP (Socket.line url) + p.retryTimers.countP _
    rw [List.countP_map]
    refine congrArg₂ _ (List.countP_congr (fun socket _ => ?_)) rfl
    obtain ⟨wire,same⟩ := told socket
    simp only [Function.comp_apply,same]
    rfl
  refine ⟨?_,fun closed => (nomatch going.symm.trans closed),sound.started,
    fun url => (le_of_eq (lines url)).trans (sound.few url),
    fun reconnect opens called url known =>
      (sound.kept reconnect opens called url known).trans (le_of_eq (lines url).symm),?_⟩
  · intro socket member here
    obtain ⟨before,old,rfl⟩ := List.mem_map.mp member
    by_cases opened : before.isOpen = true
    · rw [if_pos opened]
      exact tells before.wire (sound.subscribed before old opened)
    · rw [if_neg opened] at here
      exact absurd here opened
  · intro _ i socket found first
    have found' : (p.sockets.map (fun socket => if socket.isOpen then { socket with wire := socket.wire ++ [frame] }
        else socket))[i]? =
        some socket := found
    rw [List.getElem?_map] at found'
    obtain ⟨before,lies,rfl⟩ := Option.map_eq_some_iff.mp found'
    obtain ⟨wire,same⟩ := told before
    rw [same] at first
    exact sound.attended going i before lies first
theorem close (sound : Sound settings p) : Sound settings p.close := by
  refine ⟨?_,fun _ => ⟨rfl,rfl,rfl,?_⟩,fun none => (nomatch none),fun url => ?_,fun _ none => (nomatch none),
    fun none => (nomatch none)⟩
  · intro socket member here
    obtain ⟨before,_,rfl⟩ := List.mem_map.mp member
    cases phase : before.phase <;> simp [Socket.isOpen,phase] at here
  · intro socket member
    obtain ⟨before,_,rfl⟩ := List.mem_map.mp member
    cases phase : before.phase <;> simp
  · refine le_trans ?_ (sound.few url)
    refine Nat.add_le_add ?_ (Nat.zero_le _)
    show (p.sockets.map _).countP (Socket.line url) ≤ p.sockets.countP (Socket.line url)
    rw [List.countP_map]
    refine List.countP_mono_left (fun socket _ line => ?_)
    cases phase : socket.phase <;> simp [Socket.line,phase] at line ⊢
    exact line

variable (terms : Terms F E)

theorem served_append (wire : List (Frame F E)) (frame : Frame F E) : served (wire ++ [frame]) =
    match frame with
    | .req id filter => (served wire).insert id filter
    | .close id => (served wire).erase id
    | .event _ => served wire := List.foldl_append
theorem step (sound : Sound settings p) (event : Event F E) : Sound settings (p.step settings terms event) := by
  cases event with
  | connect => exact sound.connect
  | opens i replays => exact sound.opens i replays
  | fails i random => exact sound.refuse i random
  | closes i random => exact sound.closes i random
  | settles b random => exact sound.settles b random
  | redials k => exact sound.dials k
  | message message =>
    simp only [Pool.step,Pool.onMessage]
    split_ifs
    · exact sound
    · cases message with
      | other => exact sound
      | ok accepted =>
        dsimp only
        split_ifs
        · exact sound
        · exact { sound with }
      | event id e =>
        dsimp only
        split
        · split_ifs
          · exact { sound with }
          · exact { sound with }
          · exact sound
        · exact sound
  | subscribe id filter =>
    simp only [Pool.step,Pool.subscribe]
    split_ifs with refused
    · exact sound
    · refine sound.broadcasts (p.subscriptions.insert id filter) (.req id filter) (fun wire same => ?_) (sound.connected_open ?_)
      · rw [served_append,same]
      · simpa using (not_or.mp refused).1
  | unsubscribe id =>
    simp only [Pool.step,Pool.unsubscribe]
    split_ifs with present
    · refine sound.broadcasts (p.subscriptions.erase id) (.close id) (fun wire same => ?_) ?_
      · rw [served_append,same]
      · by_contra closed
        rw [(sound.ended (by simpa using closed)).2.2.1] at present
        cases present
    · exact sound
  | publish e =>
    simp only [Pool.step,Pool.publish]
    split_ifs with refused
    · exact sound
    · have told := sound.broadcasts p.subscriptions (.event e) (fun wire same => by rw [served_append,same])
        (sound.connected_open (by simpa using (not_or.mp refused).1))
      exact { told with }
  | close => exact sound.close
theorem run (sound : Sound settings p) (events : List (Event F E)) : Sound settings (p.run settings terms events) := by
  induction events generalizing p with
  | nil => exact sound
  | cons event rest ih => exact ih (sound.step terms event)

end Sound

/-- Whatever relays do and in whatever order: every open socket was told exactly of the
    subscriptions there are. A pool that reconnects and is not closed has a line to each of
    its relays, and no more of them than connections were made. A pool that is closed has
    neither sockets nor dials left. -/
theorem pool_kept (settings : Settings) (terms : Terms F E) (events : List (Event F E)) :
    (∀ socket ∈ (Pool.new.run settings terms events).sockets, socket.isOpen = true →
      served socket.wire = (Pool.new.run settings terms events).subscriptions) ∧
    (settings.reconnect = true → (Pool.new.run settings terms events).closed = false →
      (Pool.new.run settings terms events).batches ≠ [] → ∀ url ∈ settings.urls,
        1 ≤ (Pool.new.run settings terms events).lines url ∧
        (Pool.new.run settings terms events).lines url ≤ (Pool.new.run settings terms events).batches.length) ∧
    ((Pool.new.run settings terms events).closed = false → ∀ i socket,
      (Pool.new.run settings terms events).sockets[i]? = some socket → socket.phase = .owed →
        ∃ batch ∈ (Pool.new.run settings terms events).batches, batch.settled = false ∧ i ∈ batch.members) ∧
    ((Pool.new.run settings terms events).closed = true → (Pool.new.run settings terms events).retryTimers = [] ∧
      ∀ socket ∈ (Pool.new.run settings terms events).sockets, socket.phase ≠ .pending ∧ socket.phase ≠ .opened) := by
  have sound := (sound_new settings).run terms events
  refine ⟨sound.subscribed,fun reconnect going called url known => ?_,fun going i socket found owed => ?_,
    fun closed => ?_⟩
  · exact ⟨sound.kept reconnect going called url known,sound.few url⟩
  · exact sound.attended going i socket found (.inr owed)
  · obtain ⟨_,none,_,gone⟩ := sound.ended closed
    exact ⟨none,gone⟩
/-- The first attempt fails, and a later one opens: it is told of the subscription made before. -/
theorem pool_kept_redialled :
    let pool := Pool.new.run ⟨["wss://relay.example/"],by decide,true,30000,false⟩
      ⟨fun (kind : String) e => kind = e,fun _ => true,fun _ => some "e"⟩
      [.connect,.subscribe "s" "k",.fails 0 ⟨0,by decide⟩,.settles 0 (fun _ => ⟨0,by decide⟩),.redials 0,.opens 1 []]
    (∀ socket ∈ pool.sockets, socket.isOpen = true → served socket.wire = pool.subscriptions) ∧
    pool.lines "wss://relay.example/" ≤ 1 ∧ (pool.sockets.map (·.isOpen)) = [false,true] := by
  intro pool
  have kept := pool_kept ⟨["wss://relay.example/"],by decide,true,30000,false⟩
    ⟨fun (kind : String) e => kind = e,fun _ => true,fun _ => some "e"⟩
    [.connect,.subscribe "s" "k",.fails 0 ⟨0,by decide⟩,.settles 0 (fun _ => ⟨0,by decide⟩),.redials 0,.opens 1 []]
  have called : pool.batches.length = 1 := by decide +kernel
  refine ⟨kept.1,?_,by decide +kernel⟩
  have few :=
    (kept.2.1 rfl (by decide +kernel) (List.ne_nil_of_length_eq_add_one called) "wss://relay.example/" (by simp)).2
  exact few.trans_eq called

end RelaySwarm.RelayPool
