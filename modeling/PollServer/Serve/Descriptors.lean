import PollServer.Model.EPoll
import PollServer.Serve.Load

/-! The descriptors of the sample server: which of them are open, which protocol has the
client of each, and which epoll instances watch it. The threads go on section by section,
each section under its lock, and the kernel gives a descriptor out again once it is closed. -/

namespace PollServer

open Lib ClientInfos

section Terminate

variable {n : ℕ} {b : Build} {shot : Shot} {v v' : Polled n} {event : EpollEvent}

/-- A turn of the loop of `onReadPoll` has its socket to terminate, or does nothing, or reads. -/
theorem pollEvent_outcome (h : pollEvent b shot v event = .ok v') :
    v' = { v with socketsToTerminate := v.socketsToTerminate.insert event.fd } ∨ v' = v ∨
      ∃ c, readClient b shot event c v = .ok v' := by
  simp only [pollEvent] at h
  split at h
  · cases h
    exact Or.inl rfl
  split at h
  · cases h
    exact Or.inl rfl
  · rename_i c hfind
    split at h
    · cases h
      exact Or.inl rfl
    rcases hbreach : c.deadlineBreach b event.now with e | breach
    · rw [hbreach] at h
      cases h
    · rw [hbreach] at h
      simp only [bind, Except.bind] at h
      split at h
      · cases h
        exact Or.inl rfl
      split at h
      · exact Or.inr (Or.inr ⟨c, h⟩)
      · cases h
        exact Or.inr (Or.inl rfl)

theorem readClient_leaves {c : ClientInfo} (h : readClient b shot event c v = .ok v') :
    (v'.socketsToTerminate = v.socketsToTerminate ∨
      v'.socketsToTerminate = v.socketsToTerminate.insert event.fd) ∧
    v'.clients.pollInEvents = v.clients.pollInEvents ∧
    v'.clients.updateIssued = v.clients.updateIssued := by
  simp only [readClient] at h
  generalize readForSingleSocket b shot event.fd _ = r at h
  obtain ⟨e | result, s⟩ := r
  · cases h
  · simp only [Except.ok.injEq] at h
    subst h
    refine ⟨?_, rfl, rfl⟩
    dsimp only
    split_ifs
    · exact Or.inr rfl
    · exact Or.inl rfl

theorem pollEvent_terminate (h : pollEvent b shot v event = .ok v') :
    v'.socketsToTerminate = v.socketsToTerminate ∨
      v'.socketsToTerminate = v.socketsToTerminate.insert event.fd := by
  rcases pollEvent_outcome h with rfl | rfl | ⟨c, hread⟩
  · exact Or.inr rfl
  · exact Or.inl rfl
  · exact (readClient_leaves hread).1

theorem onReadPoll_terminate {cs : ClientInfos} {buffer : Buffer n} {events : List EpollEvent}
    (h : onReadPoll b shot cs buffer events = .ok v) :
    v.socketsToTerminate.Nodup ∧
      ∀ fd ∈ v.socketsToTerminate, ∃ event ∈ events, event.fd = fd := by
  have hloop : ∀ (events : List EpollEvent) (v v' : Polled n),
      events.foldlM (pollEvent b shot) v = .ok v' → v.socketsToTerminate.Nodup →
        v'.socketsToTerminate.Nodup ∧ ∀ fd ∈ v'.socketsToTerminate,
          fd ∈ v.socketsToTerminate ∨ ∃ event ∈ events, event.fd = fd := by
    intro events
    induction events with
    | nil =>
      intro v v' h hd
      cases h
      exact ⟨hd, fun fd hfd => Or.inl hfd⟩
    | cons event events ih =>
      intro v v' h hd
      rw [List.foldlM_cons] at h
      rcases hturn : pollEvent b shot v event with e | v1
      · rw [hturn] at h
        cases h
      · rw [hturn] at h
        have hv1 : v1.socketsToTerminate.Nodup ∧ ∀ fd ∈ v1.socketsToTerminate,
            fd ∈ v.socketsToTerminate ∨ event.fd = fd := by
          rcases pollEvent_terminate hturn with heq | heq
          · rw [heq]
            exact ⟨hd, fun fd hfd => Or.inl hfd⟩
          · rw [heq]
            refine ⟨hd.insert, fun fd hfd => ?_⟩
            rcases List.mem_insert_iff.mp hfd with rfl | hfd
            · exact Or.inr rfl
            · exact Or.inl hfd
        obtain ⟨hnodup, hmem⟩ := ih v1 v' h hv1.1
        refine ⟨hnodup, fun fd hfd => ?_⟩
        rcases hmem fd hfd with hfd | ⟨event', he, rfl⟩
        · rcases hv1.2 fd hfd with hfd | rfl
          · exact Or.inl hfd
          · exact Or.inr ⟨event, List.mem_cons_self, rfl⟩
        · exact Or.inr ⟨event', List.mem_cons_of_mem _ he, rfl⟩
  rcases hfold : (events.take cs.pollInEvents).foldlM (pollEvent b shot)
    (⟨cs, buffer, [], [], [], []⟩ : Polled n) with e | v'
  · rw [onReadPoll, hfold] at h
    cases h
  · rw [onReadPoll, hfold] at h
    cases h
    obtain ⟨hnodup, hmem⟩ := hloop _ _ _ hfold List.nodup_nil
    refine ⟨hnodup, fun fd hfd => ?_⟩
    obtain ⟨event, he, heq⟩ := (hmem fd hfd).resolve_left List.not_mem_nil
    exact ⟨event, List.mem_of_mem_take he, heq⟩

end Terminate

/-- Where the thread of a protocol stands in the loop of `PollAndRead`. -/
inductive Polling where
  | idle
  | waited (events : List EpollEvent)
  | polled (socketsToTerminate : List ℤ)

/-- Where the one thread stands that is in the loop of `downCallback`, whose mutex is static.
The indices may be out of date by the time they are used. -/
inductive Moving (k : ℕ) where
  | idle
  | picked (maxIdx minIdx : Fin k)
  | looked (maxIdx minIdx : Fin k)
  | taken (clientInfo : ClientInfo) (minIdx : Fin k)

/-- `opened` are the descriptors of connections that the kernel has not closed, and `child`
is the one that `main` has accepted and not yet added. -/
structure Descriptors (k : ℕ) where
  server : Server k
  ePollIn : Fin k → EPoll
  opened : List ℤ
  child : Option ℤ
  polling : Fin k → Polling
  moving : Moving k

/-- What becomes of a connection. -/
inductive Fate where
  | accepted (fd : ℤ)
  | closed (fd : ℤ)
  deriving DecidableEq

namespace Descriptors

variable {k : ℕ}

def start (timeout : ℤ) (balancerIndex : Fin k → ℕ) (maxCount : ℕ) : Descriptors k :=
  ⟨.start timeout balancerIndex maxCount, fun _ => .make, [], none, fun _ => .idle, .idle⟩

variable (w : Descriptors k) (i : Fin k)

abbrev clients : ClientInfoMap := (w.server.protocols i).clients

/-- `accept`: the kernel opens a descriptor that is not open. -/
def accept (fd : ℤ) : Descriptors k := { w with opened := fd :: w.opened, child := some fd }

/-- `Add`, of which `insert` adds to the epoll instance of the protocol. -/
def register (clientInfo : ClientInfo) (time : ℤ) : Descriptors k :=
  { w with
    server := w.server.add i clientInfo time
    ePollIn := Function.update w.ePollIn i
      ((w.ePollIn i).add (clientInfo.socket ∈ w.opened) clientInfo.socket).2 }

def setProtocol (p : ServerLearnProtocol) (polling : Polling) : Descriptors k :=
  { w with
    server := w.server.setBoth i (p, w.server.balancer)
    polling := Function.update w.polling i polling }

/-- `Update` before the wait. -/
def updated : ServerLearnProtocol :=
  { w.server.protocols i with clientInfos := (w.server.protocols i).clientInfos.update }

/-- The rest of `PollRead`, when `OnReadPoll` has found `v`. -/
def read {n : ℕ} (v : Polled n) (time : ℤ) : ServerLearnProtocol :=
  { w.server.protocols i with
    clientInfos := v.clients
    mostRecentTimestamps :=
      (w.server.protocols i).mostRecentTimestamps.updateFor v.socketsWeReadAt time }

/-- `CloseSocketConnections`: what is closed leaves every interest list. -/
def close (sockets : List ℤ) : Descriptors k :=
  let r := (w.server.protocols i).closeSocketConnections w.server.balancer sockets
  { w with
    server := w.server.setBoth i r.2.2
    ePollIn := fun j => (w.ePollIn j).closed r.1
    opened := w.opened.filter (· ∉ r.1)
    polling := Function.update w.polling i .idle }

/-- `RemoveOldestClientAndReturn` of `downCallback`. -/
def take (minIdx : Fin k) (socket : ℤ) (now : Timespec) : Descriptors k :=
  let r := (w.server.protocols i).removeOldestClientAndReturn w.server.balancer socket now
  { w with server := w.server.setBoth i r.2, moving := .taken r.1 minIdx }

/-- The sections of `main`, of the polling threads, of `downCallback` and of the health check.
`wait` is `Update` and `Wait` in one. `look` is `empty()` and `OldestSocket()` in one: in a
protocol that is emptied between the two `OldestSocket` reads through `end()`, and there is no
next state. A protocol that was found not empty may be empty when the client is taken. -/
inductive Step (n : ℕ) (b : Build) (shot : Shot)
    (callback : NetworkPacket → ClientInfo → NetworkPacket) :
    Descriptors k → List Fate → Descriptors k → Prop where
  | accept {w : Descriptors k} (fd : ℤ) (hc : w.child = none) (hf : fd ∉ w.opened) (h0 : 0 ≤ fd) :
      Step n b shot callback w [.accepted fd] (w.accept fd)
  | add {w : Descriptors k} (i : Fin k) (fd : ℤ) (weight : ℕ) (now : Timespec) (time : ℤ)
      (hc : w.child = some fd) :
      Step n b shot callback w []
        { w.register i (.make fd weight now) time with child := none }
  | wait {w : Descriptors k} (i : Fin k) (events : List EpollEvent) (hp : w.polling i = .idle)
      (hr : (w.ePollIn i).Reports (w.updated i).clientInfos.pollInEvents events) :
      Step n b shot callback w [] (w.setProtocol i (w.updated i) (.waited events))
  | read {w : Descriptors k} (i : Fin k) (events : List EpollEvent) (buffer : Buffer n)
      (v : Polled n) (time : ℤ) (hp : w.polling i = .waited events)
      (hv : onReadPoll b shot (w.server.protocols i).clientInfos buffer events = .ok v) :
      Step n b shot callback w []
        (w.setProtocol i (w.read i v time) (.polled v.socketsToTerminate))
  | close {w : Descriptors k} (i : Fin k) (sockets : List ℤ) (hp : w.polling i = .polled sockets) :
      Step n b shot callback w
        (((w.server.protocols i).closeSocketConnections w.server.balancer sockets).1.map .closed)
        (w.close i sockets)
  | pick {w : Descriptors k} (maxIdx minIdx : Fin k) (hm : w.moving = .idle) (hne : maxIdx ≠ minIdx) :
      Step n b shot callback w [] { w with moving := .picked maxIdx minIdx }
  | look {w : Descriptors k} (maxIdx minIdx : Fin k) (hm : w.moving = .picked maxIdx minIdx)
      (he : (w.clients maxIdx).entries ≠ []) :
      Step n b shot callback w [] { w with moving := .looked maxIdx minIdx }
  | leave {w : Descriptors k} (hm : ∀ c minIdx, w.moving ≠ .taken c minIdx) :
      Step n b shot callback w [] { w with moving := .idle }
  | take {w : Descriptors k} (maxIdx minIdx : Fin k) (socket : ℤ) (now : Timespec)
      (hm : w.moving = .looked maxIdx minIdx) :
      Step n b shot callback w [] (w.take maxIdx minIdx socket now)
  | give {w : Descriptors k} (c : ClientInfo) (minIdx : Fin k) (time : ℤ)
      (hm : w.moving = .taken c minIdx) :
      Step n b shot callback w [] { w.register minIdx c time with moving := .idle }
  | check {w : Descriptors k} (i : Fin k) (now : ℤ) :
      Step n b shot callback w []
        (w.setProtocol i ((w.server.protocols i).execHealthCheck [] now).2 (w.polling i))
  | execute {w : Descriptors k} (i : Fin k) :
      Step n b shot callback w []
        (w.setProtocol i ((w.server.protocols i).execute callback) (w.polling i))
  | write {w : Descriptors k} (i : Fin k) (sends : List (List SendEvent)) :
      Step n b shot callback w []
        (w.setProtocol i ((w.server.protocols i).write b sends).2.2 (w.polling i))

/-- Where a descriptor can be. -/
inductive Place (k : ℕ) where
  | client (i : Fin k)
  | child
  | moved

/-- `fd` is at that place. -/
def At (fd : ℤ) : Place k → Prop
  | .client i => fd ∈ w.clients i
  | .child => w.child = some fd
  | .moved => ∃ c minIdx, w.moving = .taken c minIdx ∧ c.socket = fd

/-- **Every open descriptor has one place**, and the epoll instance of its protocol watches
that of each client. -/
structure Sound (w : Descriptors k) : Prop where
  nonneg : ∀ fd ∈ w.opened, 0 ≤ fd
  placed : ∀ fd ∈ w.opened, ∃ place, w.At fd place
  unique : ∀ fd place place', 0 ≤ fd → w.At fd place → w.At fd place' → place = place'
  known : ∀ fd place, w.At fd place → fd ∈ w.opened ∨ fd = -1
  interest : ∀ i, ∀ fd ∈ (w.ePollIn i).interest, fd ∈ w.opened
  watched : ∀ i, ∀ fd ∈ w.clients i, 0 ≤ fd → fd ∈ (w.ePollIn i).interest

section Steps

variable {w w' : Descriptors k} {i : Fin k} {c : ClientInfo}

theorem clients_set_same {r : ServerLearnProtocol × Priority}
    (hs : w'.server = w.server.setBoth i r) : w'.clients i = r.1.clients := by
  rw [clients, hs, Server.setBoth_same]

theorem clients_set_other {r : ServerLearnProtocol × Priority}
    (hs : w'.server = w.server.setBoth i r) {j : Fin k} (hj : j ≠ i) :
    w'.clients j = w.clients j := by
  rw [clients, hs, Server.setBoth_other _ _ hj]

theorem Sound.still (h : w.Sound) (ho : w'.opened = w.opened) (he : w'.ePollIn = w.ePollIn)
    (hat : ∀ fd place, w'.At fd place ↔ w.At fd place) : w'.Sound where
  nonneg := by rw [ho]; exact h.nonneg
  placed fd hfd := by
    obtain ⟨place, hp⟩ := h.placed fd (ho ▸ hfd)
    exact ⟨place, (hat fd place).mpr hp⟩
  unique fd place place' h0 hp hp' :=
    h.unique fd place place' h0 ((hat fd place).mp hp) ((hat fd place').mp hp')
  known fd place hp := by
    rw [ho]
    exact h.known fd place ((hat fd place).mp hp)
  interest j fd hfd := by
    rw [ho]
    exact h.interest j fd (he ▸ hfd)
  watched j fd hfd h0 := by
    rw [he]
    exact h.watched j fd ((hat fd (.client j)).mp hfd) h0

theorem at_setProtocol {p : ServerLearnProtocol} (hk : p.clients.keys = (w.clients i).keys)
    (polling : Polling) (fd : ℤ) (place : Place k) :
    (w.setProtocol i p polling).At fd place ↔ w.At fd place := by
  cases place with
  | client j =>
    by_cases hj : j = i
    · subst hj
      rw [At, At, clients_set_same rfl, Keyed.mem_def, Keyed.mem_def, hk]
    · rw [At, At, clients_set_other rfl hj]
  | child => exact Iff.rfl
  | moved => exact Iff.rfl

theorem Sound.setProtocol (h : w.Sound) {p : ServerLearnProtocol}
    (hk : p.clients.keys = (w.clients i).keys) (polling : Polling) :
    (w.setProtocol i p polling).Sound :=
  h.still rfl rfl (at_setProtocol hk polling)

theorem at_setMoving (hm : ∀ c minIdx, w.moving ≠ .taken c minIdx) {moving : Moving k}
    (hm' : ∀ c minIdx, moving ≠ .taken c minIdx) (fd : ℤ) (place : Place k) :
    { w with moving := moving }.At fd place ↔ w.At fd place := by
  cases place with
  | client j => exact Iff.rfl
  | child => exact Iff.rfl
  | moved =>
    constructor
    · rintro ⟨c, minIdx, ht, -⟩
      exact absurd ht (hm' c minIdx)
    · rintro ⟨c, minIdx, ht, -⟩
      exact absurd ht (hm c minIdx)

theorem Sound.setMoving (h : w.Sound) (hm : ∀ c minIdx, w.moving ≠ .taken c minIdx)
    {moving : Moving k} (hm' : ∀ c minIdx, moving ≠ .taken c minIdx) :
    { w with moving := moving }.Sound :=
  h.still rfl rfl (at_setMoving hm hm')

theorem Sound.accept (h : w.Sound) {fd : ℤ} (hc : w.child = none) (hf : fd ∉ w.opened)
    (h0 : 0 ≤ fd) : (w.accept fd).Sound := by
  have hnew : ∀ place, ¬w.At fd place := by
    intro place hp
    rcases h.known fd place hp with hfd | rfl
    · exact hf hfd
    · omega
  have hat : ∀ fd' place, (w.accept fd).At fd' place →
      (fd' = fd ∧ place = .child) ∨ w.At fd' place := by
    intro fd' place hp
    cases place with
    | client j => exact Or.inr hp
    | child => exact Or.inl ⟨(Option.some.inj hp).symm, rfl⟩
    | moved => exact Or.inr hp
  refine ⟨?_, fun fd' hfd' => ?_, fun fd' place place' h0' hp hp' => ?_, fun fd' place hp => ?_,
    fun j fd' hfd' => List.mem_cons_of_mem _ (h.interest j fd' hfd'), h.watched⟩
  · intro fd' hfd'
    rcases List.mem_cons.mp hfd' with rfl | hfd'
    · exact h0
    · exact h.nonneg fd' hfd'
  · rcases List.mem_cons.mp hfd' with rfl | hfd'
    · exact ⟨.child, rfl⟩
    · obtain ⟨place, hp⟩ := h.placed fd' hfd'
      cases place with
      | client j => exact ⟨.client j, hp⟩
      | child => simp [At, hc] at hp
      | moved => exact ⟨.moved, hp⟩
  · rcases hat fd' place hp with ⟨rfl, rfl⟩ | hp <;> rcases hat fd' place' hp' with ⟨heq, rfl⟩ | hp'
    · rfl
    · exact absurd hp' (hnew place')
    · exact absurd (heq ▸ hp) (hnew place)
    · exact h.unique fd' place place' h0' hp hp'
  · rcases hat fd' place hp with ⟨rfl, -⟩ | hp
    · exact Or.inl List.mem_cons_self
    · exact (h.known fd' place hp).imp_left (List.mem_cons_of_mem _)

theorem clients_register {time : ℤ} (hs : w'.server = (w.register i c time).server) (fd : ℤ)
    (j : Fin k) : fd ∈ w'.clients j ↔ fd ∈ w.clients j ∨ (j = i ∧ fd = c.socket) := by
  by_cases hj : j = i
  · subst hj
    rw [clients_set_same (w := w) hs]
    exact (Keyed.mem_insert _).trans (by simp [or_comm, ServerLearnProtocol.clients])
  · rw [clients_set_other (w := w) hs hj]
    simp [hj]

theorem Sound.register (h : w.Sound) {time : ℤ} {place : Place k}
    (hs : w'.server = (w.register i c time).server) (he : w'.ePollIn = (w.register i c time).ePollIn)
    (ho : w'.opened = w.opened) (hp : w.At c.socket place) (hne : ∀ j, place ≠ .client j)
    (hone : ∀ fd, w.At fd place → fd = c.socket)
    (hat : ∀ fd place', (∀ j, place' ≠ .client j) →
      (w'.At fd place' ↔ w.At fd place' ∧ place' ≠ place)) : w'.Sound := by
  have hclient : ∀ fd j, w'.At fd (.client j) ↔ w.At fd (.client j) ∨ (j = i ∧ fd = c.socket) :=
    clients_register hs
  -- the descriptor that is added is nowhere else, and the others stay where they were
  have hback : ∀ fd place', 0 ≤ fd → w'.At fd place' →
      (fd = c.socket ∧ place' = .client i) ∨ (fd ≠ c.socket ∧ w.At fd place') := by
    intro fd place' h0 hp'
    have hold : w.At fd place' → place' ≠ place → fd ≠ c.socket ∧ w.At fd place' := by
      refine fun hw hpl => ⟨?_, hw⟩
      rintro rfl
      exact hpl (h.unique _ _ _ h0 hw hp)
    cases place' with
    | client j =>
      rcases (hclient fd j).mp hp' with hw | ⟨rfl, rfl⟩
      · exact Or.inr (hold hw (hne j).symm)
      · exact Or.inl ⟨rfl, rfl⟩
    | child =>
      obtain ⟨hw, hpl⟩ := (hat fd .child (fun _ => nofun)).mp hp'
      exact Or.inr (hold hw hpl)
    | moved =>
      obtain ⟨hw, hpl⟩ := (hat fd .moved (fun _ => nofun)).mp hp'
      exact Or.inr (hold hw hpl)
  refine ⟨by rw [ho]; exact h.nonneg, fun fd hfd => ?_, fun fd place1 place2 h0 hp1 hp2 => ?_,
    fun fd place' hp' => ?_, fun j fd hfd => ?_, fun j fd hfd h0 => ?_⟩
  · obtain ⟨place', hp'⟩ := h.placed fd (ho ▸ hfd)
    by_cases hpl : place' = place
    · subst hpl
      exact ⟨.client i, (hclient fd i).mpr (Or.inr ⟨rfl, hone fd hp'⟩)⟩
    · cases place' with
      | client j => exact ⟨.client j, (hclient fd j).mpr (Or.inl hp')⟩
      | child => exact ⟨.child, (hat fd .child (fun _ => nofun)).mpr ⟨hp', hpl⟩⟩
      | moved => exact ⟨.moved, (hat fd .moved (fun _ => nofun)).mpr ⟨hp', hpl⟩⟩
  · rcases hback fd place1 h0 hp1 with ⟨heq, rfl⟩ | ⟨hne1, hp1⟩ <;>
      rcases hback fd place2 h0 hp2 with ⟨heq', rfl⟩ | ⟨hne2, hp2⟩
    · rfl
    · exact absurd heq hne2
    · exact absurd heq' hne1
    · exact h.unique fd place1 place2 h0 hp1 hp2
  · rw [ho]
    cases place' with
    | client j =>
      rcases (hclient fd j).mp hp' with hw | ⟨-, rfl⟩
      · exact h.known fd _ hw
      · exact h.known _ _ hp
    | child => exact h.known fd _ ((hat fd .child (fun _ => nofun)).mp hp').1
    | moved => exact h.known fd _ ((hat fd .moved (fun _ => nofun)).mp hp').1
  · rw [ho]
    rw [he] at hfd
    dsimp only [Descriptors.register] at hfd
    by_cases hj : j = i
    · subst hj
      rw [Function.update_self, EPoll.mem_add] at hfd
      rcases hfd with hfd | ⟨hopen, rfl⟩
      · exact h.interest j fd hfd
      · exact of_decide_eq_true hopen
    · rw [Function.update_of_ne hj] at hfd
      exact h.interest j fd hfd
  · rw [he]
    dsimp only [Descriptors.register]
    have hw := (hclient fd j).mp hfd
    by_cases hj : j = i
    · subst hj
      rw [Function.update_self, EPoll.mem_add]
      rcases hw with hw | ⟨-, rfl⟩
      · exact Or.inl (h.watched j fd hw h0)
      · refine Or.inr ⟨decide_eq_true ?_, rfl⟩
        exact (h.known _ _ hp).resolve_right (by omega)
    · rw [Function.update_of_ne hj]
      exact h.watched j fd (hw.resolve_right fun hi => hj hi.1) h0

/-- What a polling thread closes are clients of its own protocol, each of them once. -/
theorem closed_own (p : ServerLearnProtocol) (balancer : Priority) (sockets : List ℤ) :
    (p.closeSocketConnections balancer sockets).1.Nodup ∧
      ∀ fd, fd ∈ (p.closeSocketConnections balancer sockets).1 ↔ fd ∈ sockets ∧ fd ∈ p.clients := by
  rw [closeSocketConnections_closed]
  refine ⟨?_, fun fd => mem_closed sockets p.clientInfos balancer p.balancerIndex⟩
  generalize p.clientInfos = cs
  induction sockets generalizing cs balancer with
  | nil => exact List.nodup_nil
  | cons socket sockets ih =>
    cases hf : cs.clientInfos.find socket with
    | some info =>
      rw [close_found hf]
      refine List.nodup_cons.mpr ⟨fun hmem => ?_, ih _ _⟩
      exact ((Keyed.mem_erase _).mp ((mem_closed _ _ _ _).mp hmem).2).2 rfl
    | none =>
      rw [close_missing hf]
      exact ih _ _

theorem clients_close (w : Descriptors k) (i : Fin k) (sockets : List ℤ) (fd : ℤ) (j : Fin k) :
    fd ∈ (w.close i sockets).clients j ↔
      fd ∈ w.clients j ∧ (j = i → fd ∉ sockets) := by
  by_cases hj : j = i
  · subst hj
    rw [clients_set_same (w := w) rfl, ServerLearnProtocol.clients, closeSocketConnections_clientInfos,
      Keyed.mem_eraseAll]
    simp
  · rw [clients_set_other (w := w) rfl hj]
    simp [hj]

/-- **Closing keeps what has been moved away open.** -/
theorem Sound.close (h : w.Sound) (sockets : List ℤ) : (w.close i sockets).Sound := by
  obtain ⟨-, hown⟩ := closed_own (w.server.protocols i) w.server.balancer sockets
  have hat : ∀ fd place, (w.close i sockets).At fd place ↔
      w.At fd place ∧ (place = .client i → fd ∉ sockets) := by
    intro fd place
    cases place with
    | client j =>
      refine (clients_close w i sockets fd j).trans (and_congr_right fun _ => ?_)
      rw [Place.client.injEq]
    | child => exact ⟨fun hp => ⟨hp, nofun⟩, fun hp => hp.1⟩
    | moved => exact ⟨fun hp => ⟨hp, nofun⟩, fun hp => hp.1⟩
  have hkept : ∀ fd place, 0 ≤ fd → (w.close i sockets).At fd place →
      fd ∉ ((w.server.protocols i).closeSocketConnections w.server.balancer sockets).1 := by
    intro fd place h0 hp hclosed
    obtain ⟨hs, hc⟩ := (hown fd).mp hclosed
    obtain ⟨hw, hnot⟩ := (hat fd place).mp hp
    exact hnot (h.unique fd place (.client i) h0 hw hc) hs
  refine ⟨fun fd hfd => h.nonneg fd (List.mem_of_mem_filter hfd), fun fd hfd => ?_,
    fun fd place place' h0 hp hp' => h.unique fd place place' h0 ((hat fd place).mp hp).1
      ((hat fd place').mp hp').1, fun fd place hp => ?_, fun j fd hfd => ?_, fun j fd hfd h0 => ?_⟩
  · obtain ⟨hfd, hnot⟩ := List.mem_filter.mp hfd
    obtain ⟨place, hp⟩ := h.placed fd hfd
    refine ⟨place, (hat fd place).mpr ⟨hp, ?_⟩⟩
    rintro rfl hs
    exact of_decide_eq_true hnot ((hown fd).mpr ⟨hs, hp⟩)
  · rcases h.known fd place ((hat fd place).mp hp).1 with hfd | hfd
    · refine Or.inl (List.mem_filter.mpr ⟨hfd, decide_eq_true ?_⟩)
      exact hkept fd place (h.nonneg fd hfd) hp
    · exact Or.inr hfd
  · obtain ⟨hfd, hnot⟩ := (EPoll.mem_closed _).mp hfd
    exact List.mem_filter.mpr ⟨h.interest j fd hfd, decide_eq_true hnot⟩
  · refine (EPoll.mem_closed _).mpr ⟨h.watched j fd ((hat fd (.client j)).mp hfd).1 h0, ?_⟩
    exact hkept fd (.client j) h0 hfd

/-- What `downCallback` has in its hands: a client of the protocol, or, if the protocol had
none, one of the descriptor -1. -/
theorem take_cases (w : Descriptors k) (i minIdx : Fin k) (socket : ℤ) (now : Timespec) :
    ∃ c, (w.take i minIdx socket now).moving = .taken c minIdx ∧
      (((w.clients i).entries = [] ∧ c.socket = -1) ∨ c.socket ∈ w.clients i) ∧
      ∀ fd j, fd ∈ (w.take i minIdx socket now).clients j ↔
        fd ∈ w.clients j ∧ ¬(j = i ∧ fd = c.socket) := by
  cases ho : (w.server.protocols i).clientInfos.oldest socket with
  | none =>
    have hnone : (w.clients i).entries = [] := entries_of_oldest ho
    refine ⟨.make (-1) deadlineMaxCountDefault now, congrArg (Moving.taken · minIdx)
      (congrArg Prod.fst (removeOldest_none w.server.balancer ho now)), Or.inl ⟨hnone, rfl⟩,
      fun fd j => ?_⟩
    have hempty : fd ∉ w.clients i := by
      rw [Keyed.mem_def, Keyed.keys, hnone]
      exact List.not_mem_nil
    by_cases hj : j = i
    · subst hj
      rw [clients_set_same (w := w) rfl, removeOldest_none _ ho]
      exact ⟨fun hfd => absurd hfd hempty, fun hfd => hfd.1⟩
    · rw [clients_set_other (w := w) rfl hj]
      simp [hj]
  | some c =>
    refine ⟨c, congrArg (Moving.taken · minIdx)
      (congrArg Prod.fst (removeOldest_some w.server.balancer ho now)),
      Or.inr (Keyed.mem_of_entry _ (mem_of_oldest ho)), fun fd j => ?_⟩
    by_cases hj : j = i
    · subst hj
      rw [clients_set_same (w := w) rfl, removeOldest_some _ ho]
      exact (Keyed.mem_erase _).trans (by simp)
    · rw [clients_set_other (w := w) rfl hj]
      simp [hj]

theorem Sound.take (h : w.Sound) (minIdx : Fin k) (socket : ℤ) (now : Timespec)
    (hm : ∀ c minIdx, w.moving ≠ .taken c minIdx) : (w.take i minIdx socket now).Sound := by
  obtain ⟨c, hc, hplace, hclient⟩ := take_cases w i minIdx socket now
  have hmoved : ∀ fd, (w.take i minIdx socket now).At fd .moved ↔ fd = c.socket := by
    intro fd
    rw [At, hc]
    exact ⟨fun ⟨c', _, heq, hfd⟩ => by cases heq; exact hfd.symm,
      fun hfd => ⟨c, minIdx, rfl, hfd.symm⟩⟩
  -- a descriptor is where it was, or in the hands of `downCallback`
  have hback : ∀ fd place, 0 ≤ fd → (w.take i minIdx socket now).At fd place →
      (fd = c.socket ∧ place = .moved) ∨ (fd ≠ c.socket ∧ w.At fd place) := by
    intro fd place h0 hp
    have hold : w.At fd place → place ≠ .client i → fd ≠ c.socket := by
      rintro hw hpl rfl
      rcases hplace with ⟨-, hneg⟩ | hmem
      · omega
      · exact hpl (h.unique _ _ (.client i) h0 hw hmem)
    cases place with
    | client j =>
      obtain ⟨hw, hnot⟩ := (hclient fd j).mp hp
      by_cases hj : j = i
      · exact Or.inr ⟨fun heq => hnot ⟨hj, heq⟩, hw⟩
      · exact Or.inr ⟨hold hw (by simpa using hj), hw⟩
    | child => exact Or.inr ⟨hold hp nofun, hp⟩
    | moved => exact Or.inl ⟨(hmoved fd).mp hp, rfl⟩
  refine ⟨h.nonneg, fun fd hfd => ?_, fun fd place place' h0 hp hp' => ?_, fun fd place hp => ?_,
    h.interest, fun j fd hfd h0 => h.watched j fd ((hclient fd j).mp hfd).1 h0⟩
  · obtain ⟨place, hp⟩ := h.placed fd hfd
    cases place with
    | client j =>
      by_cases hi : j = i ∧ fd = c.socket
      · exact ⟨.moved, (hmoved fd).mpr hi.2⟩
      · exact ⟨.client j, (hclient fd j).mpr ⟨hp, hi⟩⟩
    | child => exact ⟨.child, hp⟩
    | moved =>
      obtain ⟨c', minIdx', ht, -⟩ := hp
      exact absurd ht (hm c' minIdx')
  · rcases hback fd place h0 hp with ⟨heq, rfl⟩ | ⟨hne, hp⟩ <;>
      rcases hback fd place' h0 hp' with ⟨heq', rfl⟩ | ⟨hne', hp'⟩
    · rfl
    · exact absurd heq hne'
    · exact absurd heq' hne
    · exact h.unique fd place place' h0 hp hp'
  · cases place with
    | client j => exact h.known fd (.client j) ((hclient fd j).mp hp).1
    | child => exact h.known fd .child hp
    | moved =>
      rw [(hmoved fd).mp hp]
      exact hplace.elim (fun hnone => Or.inr hnone.2) fun hmem => h.known _ (.client i) hmem

end Steps

section Runs

variable {n : ℕ} {b : Build} {shot : Shot} {callback : NetworkPacket → ClientInfo → NetworkPacket}
  {w w' : Descriptors k} {es history : List Fate}

theorem keys_updated (w : Descriptors k) (i : Fin k) :
    (w.updated i).clients.keys = (w.clients i).keys := by
  rw [ServerLearnProtocol.clients, updated, (w.server.protocols i).clientInfos.update_eq.1]
  rfl

theorem keys_read {i : Fin k} {events : List EpollEvent} {buffer : Buffer n} {v : Polled n} (time : ℤ)
    (hv : onReadPoll b shot (w.server.protocols i).clientInfos buffer events = .ok v) :
    (w.read i v time).clients.keys = (w.clients i).keys :=
  (onReadPoll_heard b shot hv).2.1.keys fun _ _ h => h.socket

theorem keys_check (w : Descriptors k) (i : Fin k) (now : ℤ) :
    ((w.server.protocols i).execHealthCheck [] now).2.clients.keys = (w.clients i).keys :=
  ((w.server.protocols i).execHealthCheck_spec [] now).clients.keys fun _ _ h => h.socket

theorem keys_execute (w : Descriptors k) (i : Fin k) :
    ((w.server.protocols i).execute callback).clients.keys = (w.clients i).keys := by
  rw [ServerLearnProtocol.execute_clients]

theorem sound_start (timeout : ℤ) (balancerIndex : Fin k → ℕ) (maxCount : ℕ) :
    (start timeout balancerIndex maxCount).Sound := by
  have hnone : ∀ fd place, ¬(start timeout balancerIndex maxCount).At fd place := by
    intro fd place hp
    cases place with
    | client i => exact Keyed.not_mem_empty fd hp
    | child => cases hp
    | moved =>
      obtain ⟨c, minIdx, hm, -⟩ := hp
      cases hm
  exact ⟨nofun, nofun, fun fd place _ _ hp => absurd hp (hnone fd place),
    fun fd place hp => absurd hp (hnone fd place), fun i fd hfd => absurd hfd (EPoll.not_mem_make fd),
    fun i fd hfd => absurd hfd (hnone fd (.client i))⟩

theorem Sound.step (h : w.Sound) (hs : Step n b shot callback w es w') : w'.Sound := by
  cases hs with
  | accept fd hc hf h0 => exact h.accept hc hf h0
  | add i fd weight now time hc =>
    refine h.register rfl rfl rfl (show w.At fd .child from hc) nofun
      (fun fd' hp => Option.some.inj (hp.symm.trans hc)) fun fd' place hp => ?_
    cases place with
    | client j => exact absurd rfl (hp j)
    | child => exact ⟨nofun, fun hne => absurd rfl hne.2⟩
    | moved => exact ⟨fun hm => ⟨hm, nofun⟩, fun hm => hm.1⟩
  | wait i events _ _ => exact h.setProtocol (keys_updated w i) _
  | read i events buffer v time _ hv => exact h.setProtocol (keys_read time hv) _
  | close i sockets _ => exact h.close sockets
  | pick maxIdx minIdx hm _ => exact h.setMoving (by simp [hm]) nofun
  | look maxIdx minIdx hm _ => exact h.setMoving (by simp [hm]) nofun
  | leave hm => exact h.setMoving hm nofun
  | take maxIdx minIdx socket now hm => exact h.take minIdx socket now (by simp [hm])
  | give c minIdx time hm =>
    refine h.register rfl rfl rfl (show w.At c.socket .moved from ⟨c, minIdx, hm, rfl⟩) nofun ?_
      fun fd place hp => ?_
    · rintro fd ⟨c', minIdx', hm', rfl⟩
      rw [hm] at hm'
      cases hm'
      rfl
    · cases place with
      | client j => exact absurd rfl (hp j)
      | child => exact ⟨fun hc => ⟨hc, nofun⟩, fun hc => hc.1⟩
      | moved =>
        refine ⟨fun hm' => ?_, fun hne => absurd rfl hne.2⟩
        obtain ⟨_, _, hm', -⟩ := hm'
        cases hm'
  | check i now => exact h.setProtocol (keys_check w i now) _
  | execute i => exact h.setProtocol (keys_execute w i) _
  | write i sends => exact h.setProtocol (p := ((w.server.protocols i).write b sends).2.2) rfl _

/-- A connection that was accepted and not closed is open. -/
def Counted (history : List Fate) (w : Descriptors k) : Prop :=
  ∀ fd, 0 ≤ fd →
    history.count (.accepted fd) = history.count (.closed fd) + if fd ∈ w.opened then 1 else 0

theorem Counted.same (hc : Counted history w) (ho : w'.opened = w.opened) :
    Counted (history ++ []) w' := by
  rwa [List.append_nil, Counted, ho]

theorem Counted.accept (hc : Counted history w) {fd : ℤ} (hf : fd ∉ w.opened) :
    Counted (history ++ [.accepted fd]) (w.accept fd) := by
  intro fd' h0
  have h := hc fd' h0
  rw [List.count_append, List.count_append]
  by_cases hfd : fd' = fd
  · subst hfd
    rw [if_neg hf] at h
    simpa [Descriptors.accept] using h
  · have hne : ¬fd = fd' := fun heq => hfd heq.symm
    simpa [Descriptors.accept, hfd, hne] using h

/-- What is closed was open, and is counted once. -/
theorem Counted.close (h : w.Sound) (hc : Counted history w) (i : Fin k) (sockets : List ℤ) :
    Counted (history ++
      ((w.server.protocols i).closeSocketConnections w.server.balancer sockets).1.map .closed)
      (w.close i sockets) := by
  obtain ⟨hnodup, hown⟩ := closed_own (w.server.protocols i) w.server.balancer sockets
  intro fd h0
  have hcount := hc fd h0
  have hopened : fd ∈ (w.close i sockets).opened ↔ fd ∈ w.opened ∧
      fd ∉ ((w.server.protocols i).closeSocketConnections w.server.balancer sockets).1 := by
    simp [Descriptors.close]
  have hwas : fd ∈ ((w.server.protocols i).closeSocketConnections w.server.balancer sockets).1 →
      fd ∈ w.opened := fun hfd =>
    (h.known fd (.client i) ((hown fd).mp hfd).2).resolve_right (by omega)
  generalize ((w.server.protocols i).closeSocketConnections w.server.balancer sockets).1 = closed at *
  have hinj : Function.Injective Fate.closed := fun _ _ heq => Fate.closed.inj heq
  have hnone : (closed.map Fate.closed).count (.accepted fd) = 0 := by
    rw [List.count_eq_zero]
    simp
  rw [List.count_append, List.count_append, hnone, List.count_map_of_injective _ _ hinj]
  by_cases hfd : fd ∈ closed
  · rw [List.count_eq_one_of_mem hnodup hfd, if_neg fun ho => (hopened.mp ho).2 hfd]
    rw [if_pos (hwas hfd)] at hcount
    omega
  · rw [List.count_eq_zero_of_not_mem hfd]
    simp only [hopened, hfd, not_false_eq_true, and_true]
    omega

theorem Counted.step (h : w.Sound) (hc : Counted history w) (hs : Step n b shot callback w es w') :
    Counted (history ++ es) w' := by
  cases hs with
  | accept fd _ hf _ => exact hc.accept hf
  | close i sockets _ => exact hc.close h i sockets
  | _ => exact hc.same rfl

variable {timeout : ℤ} {balancerIndex : Fin k → ℕ} {maxCount : ℕ}

theorem Run.sound (hr : Run (Step n b shot callback) (start timeout balancerIndex maxCount) history w) :
    w.Sound ∧ Counted history w := by
  refine hr.invariant (I := fun history w => w.Sound ∧ Counted history w)
    ⟨sound_start timeout balancerIndex maxCount, fun fd _ => rfl⟩ ?_
  rintro history es w w' ⟨h, hc⟩ hs
  exact ⟨h.step hs, hc.step h hs⟩

/-- **No descriptor is lost.** In every state reached an open descriptor is the client of one
protocol, or `main` or `downCallback` has it; the epoll instance of each protocol watches its
clients, and nothing that is not open; and a connection that was accepted is open until it is
closed, which happens once. -/
theorem descriptors_kept
    (hr : Run (Step n b shot callback) (start timeout balancerIndex maxCount) history w) :
    (∀ fd ∈ w.opened, ∃! place, w.At fd place) ∧
    (∀ i, ∀ fd ∈ w.clients i, 0 ≤ fd → fd ∈ (w.ePollIn i).interest) ∧
    (∀ i, ∀ fd ∈ (w.ePollIn i).interest, fd ∈ w.opened) ∧
    ∀ fd, 0 ≤ fd →
      history.count (.accepted fd) = history.count (.closed fd) + if fd ∈ w.opened then 1 else 0 := by
  obtain ⟨h, hc⟩ := Run.sound hr
  refine ⟨fun fd hfd => ?_, h.watched, h.interest, hc⟩
  obtain ⟨place, hp⟩ := h.placed fd hfd
  exact ⟨place, hp, fun place' hp' => h.unique fd place' place (h.nonneg fd hfd) hp' hp⟩

/-- **What has been moved is left alone by the thread it was moved from**, whatever that thread
still holds of its events: it reads nothing from it, and does not close it. -/
theorem stale_events_spared
    (hr : Run (Step n b shot callback) (start timeout balancerIndex maxCount) history w)
    {i j : Fin k} (hij : j ≠ i) {fd : ℤ} (h0 : 0 ≤ fd) (hfd : fd ∈ w.clients j) :
    (∀ (events : List EpollEvent) (buffer : Buffer n) (v : Polled n), w.polling i = .waited events →
      onReadPoll b shot (w.server.protocols i).clientInfos buffer events = .ok v →
        ∀ p ∈ v.dispatched, p.socket ≠ fd) ∧
    ∀ sockets, w.polling i = .polled sockets →
      fd ∈ (w.close i sockets).opened ∧ fd ∈ (w.close i sockets).clients j ∧
        fd ∈ ((w.close i sockets).ePollIn j).interest := by
  obtain ⟨h, -⟩ := Run.sound hr
  have hnot : fd ∉ w.clients i := fun hi =>
    hij (Place.client.inj (h.unique fd (.client j) (.client i) h0 hfd hi))
  refine ⟨fun events buffer v _ hv p hp heq => ?_, fun sockets _ => ?_⟩
  · exact hnot (heq ▸ (onReadPoll_heard b shot hv).1 p hp)
  · have hmem : fd ∈ (w.close i sockets).clients j :=
      (clients_close w i sockets fd j).mpr ⟨hfd, fun hj => absurd hj hij⟩
    have hclose := h.close (i := i) sockets
    exact ⟨(hclose.known fd (.client j) hmem).resolve_right (by omega), hmem,
      hclose.watched j fd hmem h0⟩

/-! ### Two protocols, and a client that is moved while its event waits -/

def sampleServer : Descriptors 2 := start 10 (fun i => (i : ℕ)) 2

def sampleClient : ClientInfo := .make 5 25 ⟨0, 0⟩

def sampleAdded : Descriptors 2 :=
  { (sampleServer.accept 5).register 0 sampleClient 0 with child := none }

def sampleWaited : Descriptors 2 :=
  sampleAdded.setProtocol 0 (sampleAdded.updated 0) (.waited [{ fd := 5, readable := true }])

def sampleTaken : Descriptors 2 := { sampleWaited with moving := .looked 0 1 }.take 0 1 5 ⟨0, 0⟩

def sampleMoved : Descriptors 2 := { sampleTaken.register 1 sampleClient 0 with moving := .idle }

theorem run_added :
    Run (Step 106 ⟨true, .little⟩ .multi pollCallback) sampleServer [.accepted 5] sampleAdded := by
  have h1 : Run (Step 106 ⟨true, .little⟩ .multi pollCallback) sampleServer [.accepted 5]
      (sampleServer.accept 5) := .next .start (.accept 5 rfl (by decide) (by decide))
  exact h1.next (.add 0 5 25 ⟨0, 0⟩ 0 rfl)

theorem run_moved :
    Run (Step 106 ⟨true, .little⟩ .multi pollCallback) sampleServer [.accepted 5] sampleMoved := by
  have h1 := run_added.next (.wait 0 [{ fd := 5, readable := true }] rfl
    ⟨by decide, by decide, by decide⟩)
  have h2 := h1.next (.pick 0 1 rfl (by decide))
  have h3 := h2.next (.look 0 1 rfl (by decide))
  have h4 := h3.next (.take 0 1 5 ⟨0, 0⟩ rfl)
  exact h4.next (.give sampleClient 1 0 rfl)

/-- The client has been moved when a second one comes to the first protocol and hangs up, and its
number is handed out again. -/
theorem run_reused : ∃ w, Run (Step 106 ⟨true, .little⟩ .multi pollCallback) sampleServer
    [.accepted 5, .accepted 6, .closed 6, .accepted 6] w ∧ 5 ∈ w.clients 1 ∧ w.opened = [6, 5] := by
  have h1 := run_moved.next (.read 0 [{ fd := 5, readable := true }] sampleBuffer _ 0 rfl rfl)
  have h2 := h1.next (.close 0 [5] rfl)
  have h3 := h2.next (.accept 6 rfl (by decide) (by decide))
  have h4 := h3.next (.add 0 6 25 ⟨0, 0⟩ 0 rfl)
  have h5 := h4.next (.wait 0 [{ fd := 6, hangUp := true }] rfl ⟨by decide, by decide, by decide⟩)
  have h6 := h5.next (.read 0 [{ fd := 6, hangUp := true }] sampleBuffer _ 0 rfl rfl)
  have h7 := h6.next (.close 0 [6] rfl)
  exact ⟨_, h7.next (.accept 6 rfl (by decide) (by decide)), by decide, by decide⟩

theorem descriptors_kept_reused : ∃ w, Run (Step 106 ⟨true, .little⟩ .multi pollCallback) sampleServer
      [.accepted 5, .accepted 6, .closed 6, .accepted 6] w ∧
    (∃! place, w.At 5 place) ∧ (∃! place, w.At 6 place) ∧ (5 : ℤ) ∈ (w.ePollIn 1).interest := by
  obtain ⟨w, hr, hclient, hopened⟩ := run_reused
  obtain ⟨hplaced, hwatched, -⟩ := descriptors_kept hr
  exact ⟨w, hr, hplaced 5 (by simp [hopened]), hplaced 6 (by simp [hopened]),
    hwatched 1 5 hclient (by decide)⟩

/-- The thread of the first protocol reads the event, and has the socket to close. -/
theorem stale_events_spared_moved : sampleMoved.polling 0 = .waited [{ fd := 5, readable := true }] ∧
    (5 : ℤ) ∈ sampleMoved.clients 1 ∧
    ∀ (buffer : Buffer 106) (v : Polled 106),
      onReadPoll ⟨true, .little⟩ .multi (sampleMoved.server.protocols 0).clientInfos buffer
        [{ fd := 5, readable := true }] = .ok v → ∀ p ∈ v.dispatched, p.socket ≠ 5 :=
  ⟨rfl, by decide, fun buffer v hv => (stale_events_spared run_moved (i := 0) (j := 1) (by decide)
    (by decide) (by decide)).1 _ buffer v rfl hv⟩

end Runs

end Descriptors

end PollServer
