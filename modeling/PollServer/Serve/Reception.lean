import PollServer.Lib.Runs
import PollServer.Read.Sessions

/-! What a polling thread's read of its clients does to them and to the lists of packets,
by the packets that it dispatches. -/

namespace PollServer

open Lib StopM ReadM

namespace NetworkPacket

/-- A packet that lets its client live on. -/
def Clears (p : NetworkPacket) : Prop := p.command = Commands.blank ∨ p.command = Commands.send

instance (p : NetworkPacket) : Decidable p.Clears := inferInstanceAs (Decidable (_ ∨ _))

/-- The packet that is queued in reply to `p`. -/
def answer (p : NetworkPacket) : Option NetworkPacket :=
  if p.command = Commands.Setup.ack then some ⟨p.socket, Commands.Setup.syn, []⟩
  else if p.command = Commands.Setup.clientID then some ⟨p.socket, Commands.Setup.join, []⟩
  else none

def IsSend (p : NetworkPacket) : Prop := p.command = Commands.send

instance (p : NetworkPacket) : Decidable p.IsSend := inferInstanceAs (Decidable (_ = _))

end NetworkPacket

open NetworkPacket

theorem not_clears_of_ack {p : NetworkPacket} (h : p.command = Commands.Setup.ack) : ¬p.Clears := by
  rw [Clears, h]
  decide

theorem not_clears_of_clientID {p : NetworkPacket} (h : p.command = Commands.Setup.clientID) :
    ¬p.Clears := by
  rw [Clears, h]
  decide

theorem answer_of_clears {p : NetworkPacket} (h : p.Clears) : p.answer = none := by
  rw [answer, if_neg fun ha => not_clears_of_ack ha h, if_neg fun hc => not_clears_of_clientID hc h]

namespace Session

variable {socket : ℤ} {p : NetworkPacket} (ses : Session)

theorem packetsToWrite_dispatch (hp : p.socket = socket) :
    (ses.dispatch socket p).packetsToWrite = ses.packetsToWrite ++ p.answer.toList := by
  subst hp
  by_cases hc : p.Clears
  · rw [answer_of_clears hc, Option.toList_none, List.append_nil]
    simp only [dispatch, react]
    split_ifs with h1 h2 h3
    · rfl
    · exact absurd hc (not_clears_of_ack h2)
    · exact absurd hc (not_clears_of_clientID h3)
    · rfl
    · rfl
  · rw [Clears, not_or] at hc
    simp only [dispatch, react, answer, if_neg hc.1, if_neg hc.2]
    split_ifs <;> simp

theorem flag_dispatch : (ses.dispatch socket p).clientInfo.terminateOnNextCycle =
    (ses.clientInfo.terminateOnNextCycle && decide ¬p.Clears) := by
  by_cases hc : p.Clears
  · simp only [dispatch, react]
    split_ifs with h1 h2 h3 h4
    · simp [hc]
    · exact absurd hc (not_clears_of_ack h2)
    · exact absurd hc (not_clears_of_clientID h3)
    · simp [hc]
    · exact absurd hc (by simp [Clears, h1, h4])
  · have hc' := hc
    rw [Clears, not_or] at hc'
    simp only [dispatch, react, if_neg hc'.1, if_neg hc'.2]
    split_ifs <;> simp [hc]

theorem client_dispatch : (ses.dispatch socket p).clientInfo.socket = ses.clientInfo.socket ∧
    (ses.dispatch socket p).clientInfo.terminateNow = ses.clientInfo.terminateNow := by
  simp only [dispatch, react]
  split_ifs <;> exact ⟨rfl, rfl⟩

end Session

/-- The session in which the packets `ps` have been dispatched. -/
structure Session.Heard (socket : ℤ) (ps : List NetworkPacket) (ses ses' : Session) : Prop where
  sockets : ∀ p ∈ ps, p.socket = socket
  dispatched : ses'.dispatched = ses.dispatched ++ ps
  readList : ses'.readList = ses.readList ++ ps.filter (IsSend ·)
  packetsToWrite : ses'.packetsToWrite = ses.packetsToWrite ++ ps.filterMap answer
  socket : ses'.clientInfo.socket = ses.clientInfo.socket
  weight : ses'.clientInfo.deadlineMaxCount = ses.clientInfo.deadlineMaxCount
  terminateNow : ses'.clientInfo.terminateNow = ses.clientInfo.terminateNow
  terminateOnNextCycle : ses'.clientInfo.terminateOnNextCycle =
    (ses.clientInfo.terminateOnNextCycle && ps.all fun p => ¬p.Clears)

namespace Session.Heard

variable {socket : ℤ} {ps qs : List NetworkPacket} {ses ses' ses'' : Session}

theorem refl (socket : ℤ) (ses : Session) : Heard socket [] ses ses := by
  constructor <;> simp

theorem trans (h : Heard socket ps ses ses') (h' : Heard socket qs ses' ses'') :
    Heard socket (ps ++ qs) ses ses'' where
  sockets p hp := (List.mem_append.mp hp).elim (h.sockets p) (h'.sockets p)
  dispatched := by rw [h'.dispatched, h.dispatched, List.append_assoc]
  readList := by rw [h'.readList, h.readList, List.filter_append, List.append_assoc]
  packetsToWrite := by
    rw [h'.packetsToWrite, h.packetsToWrite, List.filterMap_append, List.append_assoc]
  socket := h'.socket.trans h.socket
  weight := h'.weight.trans h.weight
  terminateNow := h'.terminateNow.trans h.terminateNow
  terminateOnNextCycle := by
    rw [h'.terminateOnNextCycle, h.terminateOnNextCycle, List.all_append, Bool.and_assoc]

theorem dispatch {p : NetworkPacket} (hp : p.socket = socket) (ses : Session) :
    Heard socket [p] ses (ses.dispatch socket p) where
  sockets := by simp [hp]
  dispatched := Session.dispatched_dispatch socket p ses
  readList := by
    rw [Session.readList_dispatch, List.filter_singleton]
    by_cases h : p.command = Commands.send <;> simp [IsSend, h]
  packetsToWrite := by
    rw [ses.packetsToWrite_dispatch hp]
    cases h : p.answer <;> simp [h]
  socket := ses.client_dispatch.1
  weight := congrArg Deadline.maxCount (Session.deadline_dispatch socket p ses)
  terminateNow := ses.client_dispatch.2
  terminateOnNextCycle := by rw [ses.flag_dispatch]; simp

theorem of_quiet {d : Deadline} (hd : ses'.dispatched = ses.dispatched)
    (hr : ses'.readList = ses.readList) (hw : ses'.packetsToWrite = ses.packetsToWrite)
    (hc : ses'.clientInfo = { ses.clientInfo with deadline := d })
    (hm : d.maxCount = ses.clientInfo.deadline.maxCount) : Heard socket [] ses ses' := by
  constructor <;> simp [hd, hr, hw, hc, ClientInfo.deadlineMaxCount, hm]

end Session.Heard

/-- What the code does on `socket` is to dispatch packets. -/
def Hears {n : ℕ} (socket : ℤ) (s s' : ReadState n) : Prop :=
  ∃ ps, Session.Heard socket ps s.session s'.session

theorem heard_stepwise (socket : ℤ) :
    Session.Stepwise socket fun ses ses' => ∃ ps, Session.Heard socket ps ses ses' where
  refl ses := ⟨[], .refl socket ses⟩
  trans _ _ _ := fun ⟨ps, h⟩ ⟨qs, h'⟩ => ⟨ps ++ qs, h.trans h'⟩
  count _ := ⟨[], .of_quiet rfl rfl rfl rfl (Deadline.maxCount_increment _ _)⟩
  decoded _ _ := ⟨[], .of_quiet rfl rfl rfl rfl rfl⟩
  close _ := ⟨[], .of_quiet rfl rfl rfl rfl rfl⟩
  dispatch p ses hp := ⟨[p], .dispatch hp ses⟩

/-- **Both reads only dispatch.** -/
theorem readForSingleSocket_hears {n : ℕ} (b : Build) (socket : ℤ) (shot : Shot) :
    Steps (Hears socket) (readForSingleSocket b shot socket : ReadM n ClientPollResult) :=
  (heard_stepwise socket).readForSingleSocket b shot

/-- A client of which the packets `ps` have been dispatched, and those of others. -/
structure ClientInfo.After (ps : List NetworkPacket) (c c' : ClientInfo) : Prop where
  socket : c'.socket = c.socket
  weight : c'.deadlineMaxCount = c.deadlineMaxCount
  terminateNow : c'.terminateNow = c.terminateNow
  terminateOnNextCycle : c'.terminateOnNextCycle =
    (c.terminateOnNextCycle && ps.all fun p => ¬(p.socket = c.socket ∧ p.Clears))

namespace ClientInfo.After

variable {ps qs : List NetworkPacket} {c c' c'' : ClientInfo}

theorem refl (c : ClientInfo) : After [] c c := by
  constructor <;> simp

theorem trans (h : After ps c c') (h' : After qs c' c'') : After (ps ++ qs) c c'' where
  socket := h'.socket.trans h.socket
  weight := h'.weight.trans h.weight
  terminateNow := h'.terminateNow.trans h.terminateNow
  terminateOnNextCycle := by
    rw [h'.terminateOnNextCycle, h.terminateOnNextCycle, h.socket, List.all_append, Bool.and_assoc]

theorem of_others (h : ∀ p ∈ ps, p.socket ≠ c.socket) : After ps c c := by
  refine ⟨rfl, rfl, rfl, ?_⟩
  have hall : (ps.all fun p => ¬(p.socket = c.socket ∧ p.Clears)) = true := by
    simp only [List.all_eq_true, decide_eq_true_eq]
    exact fun p hp hs => h p hp hs.1
  rw [hall, Bool.and_true]

end ClientInfo.After

/-- `v` with the packets `ps` dispatched. -/
structure Polled.Heard {n : ℕ} (ps : List NetworkPacket) (v v' : Polled n) : Prop where
  dispatched : v'.dispatched = v.dispatched ++ ps
  readList : v'.readList = v.readList ++ ps.filter (IsSend ·)
  packetsToRead : v'.clients.packetsToRead = v.clients.packetsToRead
  packetsToWrite : v'.clients.packetsToWrite = v.clients.packetsToWrite ++ ps.filterMap answer
  clients : Keyed.Changed (ClientInfo.After ps) v.clients.clientInfos v'.clients.clientInfos
  known : ∀ p ∈ ps, p.socket ∈ v.clients.clientInfos

namespace Polled.Heard

variable {n : ℕ} {ps qs : List NetworkPacket} {v v' v'' : Polled n}

theorem of_eq (hd : v'.dispatched = v.dispatched) (hr : v'.readList = v.readList)
    (hc : v'.clients = v.clients) : Heard [] v v' := by
  constructor <;> simp [hd, hr, hc, Keyed.Changed.refl ClientInfo.After.refl]

theorem mem_clients (h : Heard ps v v') (socket : ℤ) :
    socket ∈ v'.clients.clientInfos ↔ socket ∈ v.clients.clientInfos := by
  rw [Keyed.mem_def, Keyed.mem_def, h.clients.keys fun _ _ ha => ha.socket]

theorem trans (h : Heard ps v v') (h' : Heard qs v' v'') : Heard (ps ++ qs) v v'' where
  dispatched := by rw [h'.dispatched, h.dispatched, List.append_assoc]
  readList := by rw [h'.readList, h.readList, List.filter_append, List.append_assoc]
  packetsToRead := h'.packetsToRead.trans h.packetsToRead
  packetsToWrite := by
    rw [h'.packetsToWrite, h.packetsToWrite, List.filterMap_append, List.append_assoc]
  clients := h.clients.comp h'.clients fun _ _ _ ha ha' => ha.trans ha'
  known p hp := (List.mem_append.mp hp).elim (h.known p) fun hq =>
    (h.mem_clients p.socket).mp (h'.known p hq)

end Polled.Heard

section Poll

variable {n : ℕ} (b : Build) (shot : Shot)

theorem readClient_heard {event : EpollEvent} {clientInfo : ClientInfo} {v v' : Polled n}
    (hfind : v.clients.clientInfos.find event.fd = some clientInfo)
    (h : readClient b shot event clientInfo v = .ok v') : ∃ ps, Polled.Heard ps v v' := by
  obtain ⟨hmem, hsocket⟩ := (Keyed.find_eq_some _).mp hfind
  let session := { Session.start clientInfo event.clock with
    readList := v.readList, packetsToWrite := v.clients.packetsToWrite }
  obtain ⟨ps, hps⟩ := readForSingleSocket_hears b event.fd shot
    (⟨⟨v.buffer, event.recv, []⟩, session⟩ : ReadState n)
  simp only [readClient] at h
  generalize readForSingleSocket b shot event.fd ⟨⟨v.buffer, event.recv, []⟩, session⟩ = r at h hps
  obtain ⟨e | result, s⟩ := r
  · cases h
  simp only [Except.ok.injEq] at h
  subst h
  refine ⟨ps, ?_, hps.readList, rfl, hps.packetsToWrite, ?_, ?_⟩
  · rw [hps.dispatched]
    rfl
  · have hkey : s.session.clientInfo.socket = clientInfo.socket := hps.socket
    refine Keyed.changed_put _ (fun c hc hcs => ?_) (fun c hc hcs => ?_)
    · obtain rfl := Keyed.eq_of_key _ hc hmem (hcs.trans hkey)
      refine ⟨hkey, hps.weight, hps.terminateNow, hps.terminateOnNextCycle.trans ?_⟩
      rw [Bool.eq_iff_iff, Bool.and_eq_true, Bool.and_eq_true, List.all_eq_true, List.all_eq_true]
      refine and_congr_right fun _ => forall₂_congr fun p hp => ?_
      simp [hps.sockets p hp, hsocket]
    · exact .of_others fun p hp hp' => hcs (by rw [hkey, hsocket, ← hps.sockets p hp, hp'])
  · intro p hp
    rw [hps.sockets p hp, ← hsocket]
    exact Keyed.mem_of_entry _ hmem

theorem pollEvent_heard (v : Polled n) (event : EpollEvent) (v' : Polled n)
    (h : pollEvent b shot v event = .ok v') : ∃ ps, Polled.Heard ps v v' := by
  have hterminated : ∀ sockets, Polled.Heard [] v { v with socketsToTerminate := sockets } :=
    fun _ => .of_eq rfl rfl rfl
  simp only [pollEvent] at h
  split at h
  · cases h
    exact ⟨[], hterminated _⟩
  split at h
  · cases h
    exact ⟨[], hterminated _⟩
  · rename_i clientInfo hfind
    split at h
    · cases h
      exact ⟨[], hterminated _⟩
    rcases hbreach : clientInfo.deadlineBreach b event.now with e | breach
    · rw [hbreach] at h
      cases h
    · rw [hbreach] at h
      simp only [bind, Except.bind] at h
      split at h
      · cases h
        exact ⟨[], hterminated _⟩
      split at h
      · exact readClient_heard b shot hfind h
      · cases h
        exact ⟨[], .of_eq rfl rfl rfl⟩

/-- **What `onReadPoll` does to the clients and their packets.** -/
theorem onReadPoll_heard {cs : ClientInfos} {buffer : Buffer n} {events : List EpollEvent}
    {v : Polled n} (h : onReadPoll b shot cs buffer events = .ok v) :
    (∀ p ∈ v.dispatched, p.socket ∈ cs.clientInfos) ∧
      Keyed.Changed (ClientInfo.After v.dispatched) cs.clientInfos v.clients.clientInfos ∧
      v.clients.packetsToRead = cs.packetsToRead ++ v.dispatched.filter (IsSend ·) ∧
      v.clients.packetsToWrite = cs.packetsToWrite ++ v.dispatched.filterMap answer := by
  rcases hfold : (events.take cs.pollInEvents).foldlM (pollEvent b shot)
    (⟨cs, buffer, [], [], [], []⟩ : Polled n) with e | v'
  · rw [onReadPoll, hfold] at h
    cases h
  · rw [onReadPoll, hfold] at h
    cases h
    obtain ⟨ps, hps⟩ := foldlM_ok (R := fun v v' : Polled n => ∃ ps, Polled.Heard ps v v')
      (fun v => ⟨[], .of_eq rfl rfl rfl⟩) (fun v v' v'' ⟨ps, h⟩ ⟨qs, h'⟩ => ⟨ps ++ qs, h.trans h'⟩)
      (pollEvent_heard b shot) hfold
    have hd : v'.dispatched = ps := hps.dispatched
    have hr : v'.readList = ps.filter (IsSend ·) := hps.readList
    refine ⟨by rw [hd]; exact hps.known, by rw [hd]; exact hps.clients, ?_, ?_⟩
    · dsimp only
      rw [hd, hr, hps.packetsToRead]
    · rw [hd]
      exact hps.packetsToWrite

end Poll

end PollServer
