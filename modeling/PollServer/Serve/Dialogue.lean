import PollServer.Lib.Relay
import PollServer.Read.Retry
import PollServer.Serve.Handshake
import PollServer.Serve.Pipeline

/-! A client and the protocol that has its connection, behind the set up: the client writes
and reads, the protocol takes its packets in and answers them, and between the two are
channels of bytes. What the client hears are the answers to what it said. -/

namespace PollServer

open Lib StopM NetworkPacket ClientInfos

theorem pollIn_inb {n : ℕ} (timeout : ℕ) (w : Wire n) : (pollIn timeout w).2.inb = w.inb := by
  unfold pollIn
  split_ifs
  · rfl
  · split <;> rfl

namespace ClientLearnProtocol

variable {n : ℕ} (b : Build)

/-- `Read`, up to what it does about a heartbeat. -/
def readTurn : ClientM n NetworkPacket := do
  if ← look b then packet Commands.deadlineCrossed []
  else
    let p ← readFrom b
    count
    return p

/-- **`Read` is its turns**, as long as they come to heartbeats, with a reply after each. -/
theorem read_turns (fuel : ℕ) (s : Calling n) : read b (fuel + 1) s = (do
    let p ← readTurn b
    if p.command = Commands.heartBeat then
      let heartBeatReply ← packet Commands.blank []
      let _ ← write b heartBeatReply
      read b fuel
    else return p : ClientM n NetworkPacket) s := by
  have hlook := look_apply (b := b) s
  rcases hd : s.self.deadline.breached b (s.clock s.ticks) with stop | _ | _
  · rw [hd] at hlook
    have hturn : readTurn b s = _ := bind_error hlook
    rw [read, bind_error hlook, bind_error hturn]
  · rw [hd] at hlook
    rw [read, bind_ok hlook, if_neg Bool.false_ne_true]
    have hturn : readTurn b s = (if false = true then packet Commands.deadlineCrossed [] else do
        let p ← readFrom b
        count
        return p) _ := bind_ok hlook
    rw [if_neg Bool.false_ne_true] at hturn
    set s1 : Calling n := { s with ticks := s.ticks + 1, acts := s.acts ++ [.looked (s.clock s.ticks)] }
    rcases hread : readFrom b s1 with ⟨stop | p, s2⟩
    · rw [bind_error hread] at hturn ⊢
      rw [bind_error hturn]
    · rw [bind_ok hread] at hturn ⊢
      obtain ⟨s3, hcount⟩ : ∃ s3, count s2 = (.ok (), s3) := ⟨_, rfl⟩
      rw [bind_ok hcount] at hturn ⊢
      rw [bind_ok hturn]
  · rw [hd] at hlook
    have hturn : readTurn b s = (.ok ⟨s.self.server, Commands.deadlineCrossed, []⟩,
        { s with ticks := s.ticks + 1, acts := s.acts ++ [.looked (s.clock s.ticks)] }) :=
      bind_ok hlook
    rw [read, bind_ok hlook, if_pos rfl, bind_ok hturn,
      if_neg (show Commands.deadlineCrossed ≠ Commands.heartBeat by decide)]
    rfl

variable {b}

/-- A turn of `Read` hands nothing to the kernel, and it reads at most one packet. -/
theorem readTurn_reads {s s' : Calling n} {p : NetworkPacket} (h : readTurn b s = (.ok p, s')) :
    s'.handed = s.handed ∧ ((p.command = Commands.deadlineCrossed ∧ s'.wire = s.wire) ∨
      readPacket b s.self.server s.self.timeout s.wire = (.ok p, s'.wire)) := by
  have hlook := look_apply (b := b) s
  rcases hd : s.self.deadline.breached b (s.clock s.ticks) with stop | _ | _
  · rw [hd] at hlook
    rw [readTurn, bind_error hlook] at h
    cases h
  · rw [hd] at hlook
    rw [readTurn, bind_ok hlook, if_neg Bool.false_ne_true] at h
    set s1 : Calling n := { s with ticks := s.ticks + 1, acts := s.acts ++ [.looked (s.clock s.ticks)] }
    rcases hread : readFrom b s1 with ⟨stop | q, s2⟩
    · rw [bind_error hread] at h
      cases h
    · obtain ⟨hpacket, hs2⟩ := Stage.readFrom_eq hread
      rw [bind_ok hread] at h
      have hkept : s2.handed = s.handed := by rw [hs2]
      cases h
      exact ⟨hkept, Or.inr hpacket⟩
  · rw [hd] at hlook
    rw [readTurn, bind_ok hlook, if_pos rfl] at h
    cases h
    exact ⟨rfl, Or.inl ⟨rfl, rfl⟩⟩

/-- Sends that each take the packet whole hand over all of it, or nothing. -/
theorem sendOut_handed {p : NetworkPacket} (hp : Framed p) {s : Calling n}
    (hw : SentWhole b p (s.sends.headD [])) :
    ((sendOut b p s).2.handed = s.handed ∨
      (sendOut b p s).2.handed = s.handed ++ p.marshall b.order) ∧
      (sendOut b p s).2.wire = s.wire := by
  unfold sendOut
  rcases hsend : sendRaw b (p.marshall b.order) (s.sends.headD []) with stop | sent
  · exact ⟨Or.inl rfl, rfl⟩
  · refine ⟨?_, rfl⟩
    obtain ⟨hwire, -⟩ := sendRaw_eq hsend
    dsimp only
    rw [hwire]
    rcases sendCounts_whole (hp.length_marshall b.order) hw with hnone | hone
    · rw [hnone]
      exact Or.inl (List.append_nil _)
    · rw [hone, Lib.pieces_cons, List.take_length]
      exact Or.inr (congrArg _ (List.append_nil _))

theorem write_handed {p : NetworkPacket} (hp : Framed p) {s : Calling n}
    (hw : SentWhole b p (s.sends.headD [])) :
    ((write b p s).2.handed = s.handed ∨
      (write b p s).2.handed = s.handed ++ p.marshall b.order) ∧
      (write b p s).2.wire.inb = s.wire.inb := by
  have hlook := look_apply (b := b) s
  rcases hd : s.self.deadline.breached b (s.clock s.ticks) with stop | _ | _
  · rw [hd] at hlook
    rw [write, bind_error hlook]
    exact ⟨Or.inl rfl, rfl⟩
  · rw [hd] at hlook
    rw [write, bind_ok hlook, if_neg Bool.false_ne_true]
    obtain ⟨s1, hcount, hsends, hhanded, hwire⟩ : ∃ s1 : Calling n,
        count { s with ticks := s.ticks + 1, acts := s.acts ++ [.looked (s.clock s.ticks)] } =
          (.ok (), s1) ∧ s1.sends = s.sends ∧ s1.handed = s.handed ∧ s1.wire = s.wire :=
      ⟨_, rfl, rfl, rfl, rfl⟩
    rw [bind_ok hcount, ← hhanded, ← hwire]
    obtain ⟨ready, s2, hpoll, hsame⟩ : ∃ ready s2,
        onWire (fun timeout _ => pollIn timeout) s1 = (ready, s2) ∧
          s2 = { s1 with wire := s2.wire } := ⟨_, _, rfl, rfl⟩
    have hinb : s2.wire.inb = s1.wire.inb := by
      have hs2 : s2.wire = (pollIn s1.self.timeout s1.wire).2 := (congrArg (·.2.wire) hpoll).symm
      rw [hs2]
      exact pollIn_inb _ _
    have hkept : s2.handed = s1.handed := by rw [hsame]
    rcases ready with stop | _ | _
    · rw [writeTo, bind_error hpoll]
      exact ⟨Or.inl hkept, hinb⟩
    · rw [writeTo, bind_ok hpoll]
      exact ⟨Or.inl hkept, hinb⟩
    · rw [writeTo, bind_ok hpoll, if_pos rfl, ← hkept, ← hinb]
      have hs2 : s2.sends = s.sends := by rw [hsame, ← hsends]
      obtain ⟨hout, hwire2⟩ := sendOut_handed (b := b) hp (s := s2) (by rwa [hs2])
      exact ⟨hout, by rw [hwire2]⟩
  · rw [hd] at hlook
    rw [write, bind_ok hlook, if_pos rfl]
    exact ⟨Or.inl rfl, rfl⟩

end ClientLearnProtocol

theorem Nameless.named {ps : List NetworkPacket} (h : Nameless ps) {clientId : List Byte} :
    named clientId ps = clientId := by
  induction ps with
  | nil => rfl
  | cons p ps ih =>
    rw [PollServer.named, List.foldl_cons, if_neg (h p List.mem_cons_self)]
    exact ih fun q hq => h q (List.mem_cons_of_mem _ hq)

theorem pollEvent_known {n : ℕ} {b : Build} {shot : Shot} {fd : ℤ} {v v' : Polled n} {event : EpollEvent}
    (h : pollEvent b shot v event = .ok v') {clientId : List Byte} (hk : v.Known fd clientId)
    (hn : ∀ p ∈ v'.dispatched.drop v.dispatched.length, p.socket = fd →
      p.command ≠ Commands.Setup.clientID) : v'.Known fd clientId := by
  rcases pollEvent_cases h with ⟨-, hclients, -⟩ | ⟨c, hc, hread⟩
  · rwa [Polled.Known, hclients]
  have hfind := (checkedClient_eq_some (Option.filter_eq_some_iff.mp hc).1).2.2.1
  obtain ⟨hmem, hsocket⟩ := (Keyed.find_eq_some _).mp hfind
  obtain ⟨result, st, hrun, hclients, -⟩ := readClient_ok hread
  obtain ⟨ps, hps⟩ := readForSingleSocket_hears b event.fd shot (readStart v event c)
  obtain ⟨qs, hqs, hid⟩ :=
    (named_stepwise event.fd).readForSingleSocket b shot (readStart v event c)
  rw [hrun] at hps hqs hid
  have hdispatched : v'.dispatched.drop v.dispatched.length = qs := by
    unfold readStart at hrun
    simp only [readClient, hrun] at hread
    cases hread
    rw [List.drop_left]
    exact hqs
  rw [hdispatched] at hn
  intro c' hc' hs
  rw [hclients] at hc'
  rcases (Keyed.mem_entries_put _).mp hc' with ⟨hold, -⟩ | ⟨rfl, -⟩
  · exact hk c' hold hs
  · have hfd : event.fd = fd := by
      rw [← hs, hps.socket]
      exact hsocket.symm
    have hnameless : Nameless qs := by
      intro p hp
      have hsame : qs = ps := List.append_cancel_left (hqs.symm.trans hps.dispatched)
      exact hn p hp ((hps.sockets p (hsame ▸ hp)).trans hfd)
    rw [hid, hnameless.named]
    exact hk c hmem (hsocket.trans hfd)

namespace Pipeline

section Served

variable {n : ℕ} {b : Build} {shot : Shot} (callback : ResponseCallback) (s : ℤ) (clientId : List Byte)
  (ans : List Byte → List Byte)

/-- A `SEND` whose answer is a packet that its length field can tell. -/
def Answerable (p : NetworkPacket) : Prop := p.IsSend ∧ commandSize + (ans p.data).length < 2 ^ 16

/-- The pipeline, for a client that keeps its identity: what waits for the callback can be
answered, and what waits to be written is framed. -/
structure Served (history : List Passage) (w : Pipeline) : Prop where
  kept : Kept callback s history w
  known : ∀ c ∈ w.clients.clientInfos.entries, c.socket = s → c.clientId = clientId
  given : ∀ x ∈ executedOf s history, x.2.clientId = clientId
  asked : ∀ p ∈ w.executing.todo ++ w.clients.packetsToRead ++ w.readList, p.socket = s →
    Answerable ans p
  framed : ∀ p ∈ w.clients.packetsToWrite ++ w.executing.done, p.socket = s → Framed p

variable {callback s clientId ans} {w w' : Pipeline} {history es : List Passage}

theorem framed_answer {p q : NetworkPacket} (h : p.answer = some q) : Framed q := by
  unfold answer at h
  split_ifs at h
  · cases h
    exact ⟨rfl, show (Commands.Setup.syn ++ []).length < 2 ^ 16 by decide⟩
  · cases h
    exact ⟨rfl, show (Commands.Setup.join ++ []).length < 2 ^ 16 by decide⟩

theorem Served.quiet (h : Served callback s clientId ans history w)
    (hk : Kept callback s (history ++ es) w') (he : executedOf s es = [])
    (hc : ∀ c ∈ w'.clients.clientInfos.entries, c.socket = s →
      ∃ c' ∈ w.clients.clientInfos.entries, c'.socket = s ∧ c'.clientId = c.clientId)
    (ha : ∀ p ∈ w'.executing.todo ++ w'.clients.packetsToRead ++ w'.readList,
      p ∈ w.executing.todo ++ w.clients.packetsToRead ++ w.readList)
    (hf : ∀ p ∈ w'.clients.packetsToWrite ++ w'.executing.done,
      p ∈ w.clients.packetsToWrite ++ w.executing.done ∨ Framed p) :
    Served callback s clientId ans (history ++ es) w' where
  kept := hk
  known c hmem hs := by
    obtain ⟨c', hc', hs', hid⟩ := hc c hmem hs
    rw [← hid]
    exact h.known c' hc' hs'
  given := by
    rw [executedOf_append, he, List.append_nil]
    exact h.given
  asked p hp := h.asked p (ha p hp)
  framed p hp hs := (hf p hp).elim (fun hold => h.framed p hold hs) id

theorem Served.turn (h : Served callback s clientId ans history w) {v v' : Polled n} {event : EpollEvent}
    (hc : v.clients = w.clients) (hl : v.readList = w.readList)
    (hv : pollEvent b shot v event = .ok v')
    (hd : ∀ p ∈ v'.dispatched.drop v.dispatched.length, p.socket = s →
      p.command ≠ Commands.Setup.clientID ∧ (p.IsSend → Answerable ans p)) :
    Served callback s clientId ans
      (history ++ (v'.dispatched.drop v.dispatched.length).map .decoded)
      { w with clients := v'.clients, readList := v'.readList } := by
  obtain ⟨ps, hps⟩ := pollEvent_heard b shot _ event v' hv
  have hdrop : v'.dispatched.drop v.dispatched.length = ps := by
    rw [hps.dispatched, List.drop_left]
  refine ⟨h.kept.turn hc hl hv, ?_, ?_, fun p hp hs => ?_, fun p hp hs => ?_⟩
  · exact pollEvent_known hv (by rw [Polled.Known, hc]; exact h.known) fun p hp hs => (hd p hp hs).1
  · rw [executedOf_append, (passages_decoded _).2.2, List.append_nil]
    exact h.given
  · dsimp only at hp
    rw [hps.readList, hps.packetsToRead, hc, hl, ← List.append_assoc] at hp
    rcases List.mem_append.mp hp with hp | hp
    · exact h.asked p hp hs
    · obtain ⟨hmem, hsend⟩ := List.mem_filter.mp hp
      exact (hd p (hdrop ▸ hmem) hs).2 (of_decide_eq_true hsend)
  · dsimp only at hp
    rw [hps.packetsToWrite, hc] at hp
    rcases List.mem_append.mp hp with hp | hp
    · rcases List.mem_append.mp hp with hp | hp
      · exact h.framed p (List.mem_append_left _ hp) hs
      · obtain ⟨q, -, hq⟩ := List.mem_filterMap.mp hp
        exact framed_answer hq
    · exact h.framed p (List.mem_append_right _ hp) hs

theorem Served.call (h : Served callback s clientId ans history w)
    (hans : ∀ p info, info.clientId = clientId → (callback.run p info).data = ans p.data)
    {done todo : List NetworkPacket} {packet : NetworkPacket}
    (he : w.executing = .calling done (packet :: todo)) :
    Served callback s clientId ans (history ++ (Pipeline.call w.clients callback.run packet).2)
      { w with executing :=
        .calling (done ++ [(Pipeline.call w.clients callback.run packet).1]) todo } := by
  have hasked := h.asked
  have hframed := h.framed
  simp only [he, Executing.todo, Executing.done] at hasked hframed
  obtain ⟨-, hsocket, -⟩ := call_packet callback w.clients packet
  -- a packet of the client is called with the client as it is registered
  have hcall : packet.socket = s → ∃ info, info.clientId = clientId ∧
      Pipeline.call w.clients callback.run packet = (callback.run packet info, [.executed packet info]) := by
    intro hs
    obtain ⟨info, hinfo⟩ := (Keyed.mem_iff_find _).mp (show packet.socket ∈ w.clients.clientInfos by
      rw [hs]; exact h.kept.registered)
    obtain ⟨hmem, hkey⟩ := (Keyed.find_eq_some _).mp hinfo
    exact ⟨info, h.known info hmem (hkey.trans hs), by simp only [Pipeline.call, hinfo]⟩
  refine ⟨h.kept.call he, h.known, fun x hx => ?_, fun p hp hs => ?_, fun p hp hs => ?_⟩
  · rw [executedOf_append] at hx
    rcases List.mem_append.mp hx with hx | hx
    · exact h.given x hx
    · obtain ⟨hmem, hsend⟩ := List.mem_filter.mp hx
      simp only [decide_eq_true_eq] at hsend
      unfold Pipeline.call at hmem
      cases hfind : w.clients.clientInfos.find packet.socket with
      | none =>
        rw [hfind] at hmem
        exact absurd hmem List.not_mem_nil
      | some info =>
        rw [hfind] at hmem
        obtain rfl := List.mem_singleton.mp hmem
        obtain ⟨hentry, hkey⟩ := (Keyed.find_eq_some _).mp hfind
        exact h.known info hentry (hkey.trans hsend.1)
  · refine hasked p ?_ hs
    simp only [Executing.todo, List.append_assoc, List.mem_append, List.mem_cons] at hp ⊢
    tauto
  · simp only [Executing.done, ← List.append_assoc] at hp
    rcases List.mem_append.mp hp with hp | hp
    · exact hframed p hp hs
    · obtain rfl := List.mem_singleton.mp hp
      rw [hsocket] at hs
      obtain ⟨info, hid, heq⟩ := hcall hs
      obtain ⟨hsend, hsize⟩ := hasked packet
        (List.mem_append_left _ (List.mem_append_left _ List.mem_cons_self)) hs
      have hcommand : (callback.run packet info).command.length = commandSize := by
        rw [callback.command_run, hsend]
        rfl
      rw [heq]
      exact ⟨hcommand, by rwa [payload, List.length_append, hcommand, hans packet info hid]⟩

theorem Served.step (h : Served callback s clientId ans history w)
    (hans : ∀ p info, info.clientId = clientId → (callback.run p info).data = ans p.data)
    (hs : Step n b shot callback s w es w')
    (hd : ∀ p, .decoded p ∈ es → p.socket = s →
      p.command ≠ Commands.Setup.clientID ∧ (p.IsSend → Answerable ans p)) :
    Served callback s clientId ans (history ++ es) w' := by
  have hkept := h.kept.step hs
  have hsame : ∀ c ∈ w.clients.clientInfos.entries, c.socket = s →
      ∃ c' ∈ w.clients.clientInfos.entries, c'.socket = s ∧ c'.clientId = c.clientId :=
    fun c hc hs => ⟨c, hc, hs, rfl⟩
  cases hs with
  | turn event hc hl hv => exact h.turn hc hl hv fun p hp => hd p (List.mem_map_of_mem hp)
  | handOn =>
    refine h.quiet hkept rfl hsame (fun p hp => ?_) fun p hp => Or.inl hp
    simpa using hp
  | drain he =>
    refine h.quiet hkept rfl hsame (fun p hp => ?_) fun p hp => Or.inl ?_
    · dsimp only at hp
      split_ifs at hp with hr
      · simp only [Executing.todo, List.nil_append] at hp
        exact List.mem_append_right _ hp
      · simpa [he, Executing.todo] using hp
    · dsimp only at hp
      split_ifs at hp <;> simpa [he, Executing.done] using hp
  | enter he =>
    refine h.quiet hkept rfl hsame (fun p hp => ?_) fun p hp => Or.inl ?_
    · dsimp only at hp
      rw [he]
      split_ifs at hp with hr
      · rw [List.append_assoc]
        exact List.mem_append_right _ hp
      · exact hp
    · dsimp only at hp
      rw [he]
      split_ifs at hp <;> exact hp
  | call he => exact h.call hans he
  | append he =>
    refine h.quiet hkept rfl hsame (fun p hp => ?_) fun p hp => Or.inl ?_
    · simpa [he, Executing.todo] using hp
    · simpa [he, Executing.done] using hp
  | write sends he _ =>
    have hexec : executedOf s ((w.clients.write b sends).1.map .sent) = [] := (passages_sent _).2.2
    refine h.quiet hkept hexec hsame (fun p hp => hp) fun p hp => Or.inl ?_
    have hempty : (w.clients.write b sends).2.2.packetsToWrite = [] := rfl
    rw [hempty, List.nil_append] at hp
    exact List.mem_append_right _ hp
  | check sockets hs =>
    obtain ⟨hinfos, hwarnings⟩ := filterSockets_keeps sockets w.clients.clientInfos
    refine h.quiet hkept rfl (fun c hc hcs => ?_) (fun p hp => hp) fun p hp => ?_
    · obtain ⟨c', hc', hsocket, hid⟩ := hinfos.back hc
      exact ⟨c', hc', hsocket.symm.trans hcs, hid.symm⟩
    · change p ∈ (w.clients.packetsToWrite ++ (filterSockets sockets w.clients.clientInfos).2.1) ++ _ at hp
      rcases List.mem_append.mp hp with hp | hp
      · rcases List.mem_append.mp hp with hp | hp
        · exact Or.inl (List.mem_append_left _ hp)
        · obtain ⟨socket, rfl⟩ := hwarnings p hp
          exact Or.inr ⟨rfl, show (Commands.heartBeat ++ []).length < 2 ^ 16 by decide⟩
      · exact Or.inl (List.mem_append_right _ hp)
  | update =>
    obtain ⟨hinfos, hread, hwrite⟩ := w.clients.update_eq
    refine h.quiet hkept rfl (by rw [hinfos]; exact hsame) (fun p hp => ?_) fun p hp => Or.inl ?_
    · dsimp only at hp
      rwa [hread] at hp
    · dsimp only at hp
      rwa [hwrite] at hp
  | insert c =>
    refine h.quiet hkept rfl (fun c' hc' hcs => ?_) (fun p hp => hp) fun p hp => Or.inl hp
    by_cases hmem : c.socket ∈ w.clients.clientInfos
    · exact hsame c' (by rwa [← Keyed.insert_of_mem w.clients.clientInfos hmem]) hcs
    · rcases Keyed.mem_entries_insert _ hc' with rfl | hc'
      · exact absurd (hcs ▸ h.kept.registered) hmem
      · exact hsame c' hc' hcs
  | close sockets _ balancer balancerIndex =>
    rw [close_clients] at hkept ⊢
    exact h.quiet hkept rfl (fun c hc => hsame c ((Keyed.mem_entries_eraseAll _).mp hc).1)
      (fun p hp => hp) fun p hp => Or.inl hp
  | removeOldest socket now hs =>
    unfold removeOldestClientAndReturn at hs hkept ⊢
    cases ho : w.clients.oldest socket with
    | none =>
      rw [ho] at hkept
      exact h.quiet hkept rfl hsame (fun p hp => hp) fun p hp => Or.inl hp
    | some c =>
      rw [ho] at hkept
      exact h.quiet hkept rfl (fun c' hc' => hsame c' ((Keyed.mem_entries_erase _).mp hc').1)
        (fun p hp => hp) fun p hp => Or.inl hp

end Served

end Pipeline

/-- Where the client stands: it may call `Write` or `Read`, it has a heartbeat to answer, or
it has found the connection closed. -/
inductive Stance where
  | ready
  | beaten
  | closed
  deriving DecidableEq

def Stance.after (p : NetworkPacket) : Stance :=
  if p.command = Commands.heartBeat then .beaten
  else if p.command = Commands.MajorErrors.socketClosed then .closed
  else .ready

/-- The client, with what its next calls will meet. -/
def Calling.meets {n : ℕ} (c : Calling n) (events : List RecvEvent) (polls : List PollEvent)
    (sends : List (List SendEvent)) (clock : ℕ → Timespec) : Calling n :=
  { c with wire := ⟨{ c.wire.inb with events := events }, polls⟩, sends := sends, clock := clock }

/-- `shut` is that the protocol has shut the connection down. -/
structure Dialogue (m : ℕ) where
  pipeline : Pipeline
  client : Calling m
  stance : Stance
  c2s : List Byte
  s2c : List Byte
  shut : Bool

/-- What passes at the protocol, and what the client has sent and received. -/
inductive Spoken where
  | passed (passage : Passage)
  | wrote (packet : NetworkPacket)
  | heard (packet : NetworkPacket)

namespace Spoken

def passed? : Spoken → Option Passage
  | passed passage => some passage
  | _ => none

def wrote? : Spoken → Option NetworkPacket
  | wrote packet => some packet
  | _ => none

def heard? : Spoken → Option NetworkPacket
  | heard packet => some packet
  | _ => none

end Spoken

/-- A packet that the protocol can take in and answer, and that does not rename the client. -/
structure Sayable (ans : List Byte → List Byte) (p : NetworkPacket) : Prop where
  framed : Framed p
  nameless : p.command ≠ Commands.Setup.clientID
  answered : p.IsSend → commandSize + (ans p.data).length < 2 ^ 16

/-- A packet of the client `s` comes to the protocol, or leaves it. -/
def Passage.Reaches (s : ℤ) : Passage → Prop
  | decoded packet => packet.socket = s
  | executed _ _ => False
  | sent packet => packet.socket = s

namespace Dialogue

variable {m : ℕ}

/-- The client has sent what its call has handed over. -/
def said (w : Dialogue m) (packet : NetworkPacket) (c : Calling m) : List Spoken :=
  if c.handed = w.client.handed then [] else [.wrote packet]

def say (w : Dialogue m) (c : Calling m) : Dialogue m :=
  { w with
    client := c
    stance := .ready
    c2s := w.c2s ++ c.handed.drop w.client.handed.length }

/-- The client calls `Write`, answers a heartbeat, or takes a turn of `Read`; the protocol
takes in what has come from the client, writes, or does anything else. The client says what is
`Sayable`, and packets go through the kernel whole: `SentWhole` and `Undivided` at the client,
`InPieces` and `AllSent` at the protocol, which sends those of the others too. -/
inductive Step (n : ℕ) (b : Build) (shot : Shot) (callback : ResponseCallback) (s : ℤ)
    (ans : List Byte → List Byte) : Dialogue m → List Spoken → Dialogue m → Prop where
  | write {w : Dialogue m} {result : Result} {c : Calling m} (packet : NetworkPacket)
      (polls : List PollEvent) (sends : List (List SendEvent)) (clock : ℕ → Timespec)
      (hs : w.stance = .ready) (hp : Sayable ans packet) (hw : SentWhole b packet (sends.headD []))
      (h : ClientLearnProtocol.write b packet (w.client.meets [] polls sends clock) =
        (.ok result, c)) :
      Step n b shot callback s ans w (w.said packet c) (w.say c)
  | reply {w : Dialogue m} {result : Result} {c : Calling m} {packet : NetworkPacket}
      (polls : List PollEvent) (sends : List (List SendEvent)) (clock : ℕ → Timespec)
      (hs : w.stance = .beaten) (hp : packet = ⟨w.client.self.server, Commands.blank, []⟩)
      (hw : SentWhole b packet (sends.headD []))
      (h : ClientLearnProtocol.write b packet (w.client.meets [] polls sends clock) =
        (.ok result, c)) :
      Step n b shot callback s ans w (w.said packet c) (w.say c)
  | hear {w : Dialogue m} {packet : NetworkPacket} {c : Calling m} (events : List RecvEvent)
      (polls : List PollEvent) (clock : ℕ → Timespec) (hs : w.stance = .ready)
      (ha : arrived events <+: w.s2c)
      (hu : Undivided b w.client.self.timeout (w.client.meets events polls [] clock).wire)
      (h : ClientLearnProtocol.readTurn b (w.client.meets events polls [] clock) = (.ok packet, c)) :
      Step n b shot callback s ans w [.heard packet]
        { w with
          client := c
          stance := .after packet
          s2c := w.s2c.drop ((arrived events).length - (arrived c.wire.inb.events).length) }
  | feed {w : Dialogue m} {v v' : Polled n} {c : ClientInfo} {st : ReadState n} (event : EpollEvent)
      (hc : v.clients = w.pipeline.clients) (hl : v.readList = w.pipeline.readList)
      (hv : pollEvent b shot v event = .ok v') (hr : readFrom b s v event = some c)
      (hst : (readForSingleSocket b shot event.fd (readStart v event c)).2 = st)
      (hp : InPieces b shot s (readStart v event c)) (ha : arrived event.recv <+: w.c2s)
      (ho : w.shut = false) :
      Step n b shot callback s ans w
        (((v'.dispatched.drop v.dispatched.length).map .decoded).map .passed)
        { w with
          pipeline := { w.pipeline with clients := v'.clients, readList := v'.readList }
          c2s := w.c2s.drop ((arrived event.recv).length - (arrived st.inb.events).length)
          shut := st.session.shutdown }
  | send {w : Dialogue m} (sends : List (List SendEvent)) (he : w.pipeline.executing = .idle)
      (hs : AllSent b w.pipeline.clients.packetsToWrite sends) :
      Step n b shot callback s ans w
        (((w.pipeline.clients.write b sends).1.map .sent).map .passed)
        { w with
          pipeline := { w.pipeline with clients := (w.pipeline.clients.write b sends).2.2 }
          s2c := w.s2c ++ handedTo b s w.pipeline.clients.packetsToWrite sends }
  | server {w : Dialogue m} {es : List Passage} {pipeline : Pipeline}
      (h : Pipeline.Step n b shot callback s w.pipeline es pipeline) (hq : ∀ e ∈ es, ¬e.Reaches s) :
      Step n b shot callback s ans w (es.map .passed) { w with pipeline := pipeline }

/-- What the `SEND`s among the packets say. -/
def saying (ps : List NetworkPacket) : List (List Byte) := (ps.filter (IsSend ·)).map NetworkPacket.data

def passages (history : List Spoken) : List Passage := history.filterMap Spoken.passed?

def wroteBy (history : List Spoken) : List NetworkPacket := history.filterMap Spoken.wrote?

def heardBy (history : List Spoken) : List NetworkPacket := history.filterMap Spoken.heard?

/-- The packets that were written to the client, of any command. -/
def reached (s : ℤ) (es : List Passage) : List NetworkPacket :=
  (es.filterMap Passage.sent?).filter (·.socket = s)

section Histories

variable {s : ℤ} {history more : List Spoken} {es es' : List Passage} {ps qs : List NetworkPacket}

theorem saying_append : saying (ps ++ qs) = saying ps ++ saying qs := by
  rw [saying, List.filter_append, List.map_append, saying, saying]

theorem saying_map (ps : List NetworkPacket) (socket : ℤ) :
    saying (ps.map fun q => { q with socket := socket }) = saying ps := by
  rw [saying, List.filter_map, List.map_map]
  rfl

theorem passages_append : passages (history ++ more) = passages history ++ passages more :=
  List.filterMap_append

theorem wroteBy_append : wroteBy (history ++ more) = wroteBy history ++ wroteBy more :=
  List.filterMap_append

theorem heardBy_append : heardBy (history ++ more) = heardBy history ++ heardBy more :=
  List.filterMap_append

theorem reached_append : reached s (es ++ es') = reached s es ++ reached s es' := by
  rw [reached, List.filterMap_append, List.filter_append, reached, reached]

theorem passed_parts (es : List Passage) : passages (es.map .passed) = es ∧
    wroteBy (es.map .passed) = [] ∧ heardBy (es.map .passed) = [] := by
  rw [passages, wroteBy, heardBy, List.filterMap_map, List.filterMap_map, List.filterMap_map]
  simp [Function.comp_def, Spoken.passed?, Spoken.wrote?, Spoken.heard?]

theorem said_parts (w : Dialogue m) (packet : NetworkPacket) (c : Calling m) :
    passages (w.said packet c) = [] ∧ heardBy (w.said packet c) = [] ∧
      wroteBy (w.said packet c) = if c.handed = w.client.handed then [] else [packet] := by
  unfold said
  split_ifs <;> exact ⟨rfl, rfl, rfl⟩

theorem quiet_parts (hq : ∀ e ∈ es, ¬Passage.Reaches s e) :
    Pipeline.decodedOf s es = [] ∧ reached s es = [] := by
  constructor
  · rw [Pipeline.decodedOf, Pipeline.sendsOf, List.filter_eq_nil_iff]
    intro p hp
    obtain ⟨e, he, hpe⟩ := List.mem_filterMap.mp hp
    have hne : p.socket ≠ s := by
      cases e with
      | decoded q =>
        cases hpe
        exact hq _ he
      | executed q info => cases hpe
      | sent q => cases hpe
    simp [hne]
  · rw [reached, List.filter_eq_nil_iff]
    intro p hp
    obtain ⟨e, he, hpe⟩ := List.mem_filterMap.mp hp
    have hne : p.socket ≠ s := by
      cases e with
      | decoded q => cases hpe
      | executed q info => cases hpe
      | sent q =>
        cases hpe
        exact hq _ he
    simp [hne]

/-- What the client is sent when every packet goes out as it is. -/
theorem handedTo_allSent {b : Build} {sends : List (List SendEvent)} (h : AllSent b ps sends) :
    handedTo b s ps sends = wire b.order (ps.filter (·.socket = s)) := by
  induction ps generalizing sends with
  | nil => rfl
  | cons packet ps ih =>
    obtain ⟨sent, hsent, hwire, hopen⟩ := h 0 packet rfl
    rw [← List.headD_eq_getD] at hsent
    have hrest : handedTo b s ps sends.tail = wire b.order (ps.filter (·.socket = s)) :=
      ih fun i p hp => by
        rw [← getD_succ_tail]
        exact h (i + 1) p hp
    simp only [handedTo, hsent, hopen, hrest, hwire]
    by_cases hs : packet.socket = s
    · rw [List.filter_cons_of_pos (by simpa using hs), if_pos hs]
      rfl
    · rw [List.filter_cons_of_neg (by simpa using hs), if_neg hs]
      rfl

end Histories

section Invariant

variable {n : ℕ} {b : Build} {shot : Shot} {callback : ResponseCallback} {s : ℤ}
  {clientId : List Byte} {ans : List Byte → List Byte} {w w' : Dialogue m}
  {history more : List Spoken}

/-- What the client has written was taken in by the protocol, or it is in the channel. -/
def Upward (b : Build) (s : ℤ) (ans : List Byte → List Byte) (history : List Spoken)
    (w : Dialogue m) : Prop :=
  ∃ taken rest, Relays (wroteBy history) rest taken ∧
    Pipeline.decodedOf s (passages history) =
      Pipeline.sendsOf s (taken.map fun q => { q with socket := s }) ∧
    (∀ q ∈ rest, Sayable ans q) ∧ (w.shut = false → w.c2s = wire b.order rest)

/-- What was written to the client was read by it, or it is in the channel. -/
def Downward (b : Build) (s : ℤ) (history : List Spoken) (w : Dialogue m) : Prop :=
  ∃ taken rest, Relays (reached s (passages history)) rest taken ∧
    saying (heardBy history) = saying taken ∧ (∀ q ∈ rest, Framed q) ∧
    (w.stance ≠ .closed → w.s2c = wire b.order rest ∧ w.client.wire.inb.buffer.offset = 0)

theorem Upward.keep (h : Upward b s ans history w) (hw : wroteBy more = [])
    (hd : Pipeline.decodedOf s (passages more) = []) (hc : w'.c2s = w.c2s) (ho : w'.shut = w.shut) :
    Upward b s ans (history ++ more) w' := by
  obtain ⟨taken, rest, hrelay, hdecoded, hsay, hwire⟩ := h
  refine ⟨taken, rest, ?_, ?_, hsay, by rwa [hc, ho]⟩
  · rwa [wroteBy_append, hw, List.append_nil]
  · rw [passages_append, Pipeline.decodedOf_append, hd, List.append_nil]
    exact hdecoded

theorem Downward.keep (h : Downward b s history w) (hh : saying (heardBy more) = [])
    (hr : reached s (passages more) = []) (hc : w'.s2c = w.s2c)
    (hs : w'.stance = .closed ∨ w.stance ≠ .closed)
    (ho : w'.client.wire.inb.buffer = w.client.wire.inb.buffer) :
    Downward b s (history ++ more) w' := by
  obtain ⟨taken, rest, hrelay, hsaid, hframed, hwire⟩ := h
  refine ⟨taken, rest, ?_, ?_, hframed, fun hopen => ?_⟩
  · rwa [passages_append, reached_append, hr, List.append_nil]
  · rw [heardBy_append, saying_append, hh, List.append_nil]
    exact hsaid
  · rw [hc, ho]
    exact hwire (hs.resolve_left hopen)

theorem Upward.say (h : Upward b s ans history w) {packet : NetworkPacket} {c : Calling m}
    (hp : Sayable ans packet) (hc : c.handed = w.client.handed ∨
      c.handed = w.client.handed ++ packet.marshall b.order) :
    Upward b s ans (history ++ w.said packet c) (w.say c) := by
  obtain ⟨hpass, -, hwrote⟩ := said_parts w packet c
  rcases hc with hc | hc
  · rw [if_pos hc] at hwrote
    refine h.keep hwrote (by rw [hpass]; rfl) ?_ rfl
    simp [Dialogue.say, hc]
  · have hne : c.handed ≠ w.client.handed := by
      rw [hc]
      intro heq
      exact wire_ne_nil b.order packet [] (by simpa [wire] using heq)
    rw [if_neg hne] at hwrote
    obtain ⟨taken, rest, hrelay, hdecoded, hsay, hwire⟩ := h
    refine ⟨taken, rest ++ [packet], ?_, ?_, ?_, fun ho => ?_⟩
    · rw [wroteBy_append, hwrote]
      exact hrelay.push _
    · rw [passages_append, hpass, List.append_nil]
      exact hdecoded
    · intro q hq
      rcases List.mem_append.mp hq with hq | hq
      · exact hsay q hq
      · rwa [List.mem_singleton.mp hq]
    · change w.c2s ++ c.handed.drop w.client.handed.length = _
      rw [hc, List.drop_left, hwire ho, Stage.wire_append]
      simp [wire]

/-- A read of the protocol takes its packets from the front of the stream, and dispatches them. -/
theorem pollEvent_took {v v' : Polled n} {event : EpollEvent} {c : ClientInfo} {st : ReadState n}
    (hv : pollEvent b shot v event = .ok v') (hr : readFrom b s v event = some c)
    (hst : (readForSingleSocket b shot event.fd (readStart v event c)).2 = st)
    (hp : InPieces b shot s (readStart v event c)) {ps : List NetworkPacket}
    (hps : ∀ q ∈ ps, Framed q) (hu : arrived event.recv <+: wire b.order ps) :
    ∃ taken rest mid, ps = taken ++ rest ∧
      arrived event.recv = wire b.order taken ++ (mid ++ arrived st.inb.events) ∧
      (mid = [] ∨ st.session.shutdown = true) ∧
      v'.dispatched.drop v.dispatched.length = taken.map fun q => { q with socket := s } := by
  obtain ⟨rfl, -, hfind, -⟩ := checkedClient_eq_some (Option.filter_eq_some_iff.mp hr).1
  rcases pollEvent_cases hv with ⟨hnone, -⟩ | ⟨c', hc', hread⟩
  · rw [hr] at hnone
    cases hnone
  rw [hr] at hc'
  cases hc'
  rcases hrun : readForSingleSocket b shot event.fd (readStart v event c) with ⟨stop | result, st'⟩
  · unfold readStart at hrun
    simp only [readClient, hrun] at hread
    cases hread
  rw [hrun] at hst
  obtain rfl : st' = st := hst
  obtain ⟨taken, rest, mid, htook⟩ := readForSingleSocket_took hp hrun hps hu
  refine ⟨taken, rest, mid, htook.packets, htook.stream, htook.shut, ?_⟩
  unfold readStart at hrun
  simp only [readClient, hrun] at hread
  cases hread
  rw [List.drop_left]
  exact htook.dispatched

theorem Upward.feed (h : Upward b s ans history w) {pipeline : Pipeline} {v v' : Polled n}
    {event : EpollEvent} {c : ClientInfo} {st : ReadState n}
    (hv : pollEvent b shot v event = .ok v') (hr : readFrom b s v event = some c)
    (hst : (readForSingleSocket b shot event.fd (readStart v event c)).2 = st)
    (hp : InPieces b shot s (readStart v event c)) (ha : arrived event.recv <+: w.c2s)
    (ho : w.shut = false) :
    Upward b s ans
      (history ++ ((v'.dispatched.drop v.dispatched.length).map .decoded).map .passed)
      { w with
        pipeline := pipeline
        c2s := w.c2s.drop ((arrived event.recv).length - (arrived st.inb.events).length)
        shut := st.session.shutdown } ∧
    ∀ p ∈ v'.dispatched.drop v.dispatched.length,
      p.command ≠ Commands.Setup.clientID ∧ (p.IsSend → Pipeline.Answerable ans p) := by
  obtain ⟨taken, rest, hrelay, hdecoded, hsay, hwire⟩ := h
  have hc2s := hwire ho
  rw [hc2s] at ha ⊢
  obtain ⟨more, rest', mid, rfl, hstream, hshut, hdrop⟩ :=
    pollEvent_took hv hr hst hp (fun q hq => (hsay q hq).framed) ha
  obtain ⟨hpass, hwrote, -⟩ := passed_parts ((more.map fun q => { q with socket := s }).map .decoded)
  refine ⟨⟨taken ++ more, rest', ?_, ?_, fun q hq => hsay q (List.mem_append_right _ hq), ?_⟩, ?_⟩
  · rw [hdrop, wroteBy_append, hwrote, List.append_nil]
    exact hrelay.pop
  · rw [hdrop, passages_append, hpass, Pipeline.decodedOf_append, hdecoded,
      (Pipeline.passages_decoded _).1, List.map_append, Pipeline.sendsOf_append]
  · intro hopen
    have hmid := hshut.resolve_right (by simpa using hopen)
    rw [hmid, List.nil_append] at hstream
    dsimp only
    rw [hstream, List.length_append, Nat.add_sub_cancel, Stage.wire_append, List.drop_left]
  · intro p hp
    rw [hdrop] at hp
    obtain ⟨q, hq, rfl⟩ := List.mem_map.mp hp
    have hq' := hsay q (List.mem_append_left _ hq)
    exact ⟨hq'.nameless, fun hsend => ⟨hsend, hq'.answered hsend⟩⟩

theorem Downward.hear (h : Downward b s history w) (hm : sizeBytes ≤ m) {packet : NetworkPacket}
    {c : Calling m} {events : List RecvEvent} {polls : List PollEvent} {clock : ℕ → Timespec}
    (hs : w.stance = .ready) (ha : arrived events <+: w.s2c)
    (hu : Undivided b w.client.self.timeout (w.client.meets events polls [] clock).wire)
    (hr : ClientLearnProtocol.readTurn b (w.client.meets events polls [] clock) = (.ok packet, c)) :
    Downward b s (history ++ [.heard packet])
      { w with
        client := c
        stance := .after packet
        s2c := w.s2c.drop ((arrived events).length - (arrived c.wire.inb.events).length) } := by
  obtain ⟨taken, rest, hrelay, hsaid, hframed, hwire⟩ := h
  obtain ⟨hs2c, hoffset⟩ := hwire (by rw [hs]; decide)
  obtain ⟨-, hcase⟩ := ClientLearnProtocol.readTurn_reads hr
  have hheard : saying (heardBy (history ++ [.heard packet])) = saying taken ++ saying [packet] := by
    rw [heardBy_append, saying_append, hsaid]
    rfl
  have hreached : Relays (reached s (passages (history ++ [.heard packet]))) rest taken := by
    rwa [passages_append, show passages [.heard packet] = [] from rfl, List.append_nil]
  have hmute : packet.command ≠ Commands.send → saying [packet] = [] := by
    intro hne
    rw [saying, List.filter_cons_of_neg (by simp [IsSend, hne])]
    rfl
  rcases hcase with ⟨hcommand, hsame⟩ | hread
  · refine ⟨taken, rest, hreached, ?_, hframed, fun _ => ?_⟩
    · rw [hheard, hmute (by rw [hcommand]; decide), List.append_nil]
    · dsimp only
      rw [hsame]
      exact ⟨by simpa [Calling.meets] using hs2c, hoffset⟩
  by_cases hclosed : packet.command = Commands.MajorErrors.socketClosed
  · refine ⟨taken, rest, hreached, ?_, hframed, fun hopen => absurd ?_ hopen⟩
    · rw [hheard, hmute (by rw [hclosed]; decide), List.append_nil]
    · dsimp only
      rw [Stance.after, hclosed, if_neg (by decide), if_pos rfl]
  rw [hs2c] at ha
  obtain ⟨hoffset', htook⟩ := readPacket_exact
    (w := (w.client.meets events polls [] clock).wire) hm hoffset hu hread hclosed hframed ha
  rcases htook with ⟨rfl, harrived⟩ | ⟨q, rest', rfl, rfl, harrived⟩
  · refine ⟨taken, rest, hreached, ?_, hframed, fun _ => ⟨?_, hoffset'⟩⟩
    · rw [hheard, hmute (show Commands.empty ≠ Commands.send by decide), List.append_nil]
    · change arrived events = arrived c.wire.inb.events at harrived
      dsimp only
      rw [harrived, Nat.sub_self, List.drop_zero, hs2c]
  · refine ⟨taken ++ [q], rest', Relays.pop hreached, ?_,
      fun p hp => hframed p (List.mem_cons_of_mem _ hp), fun _ => ⟨?_, hoffset'⟩⟩
    · rw [hheard, saying_append]
      exact congrArg _ (saying_map [q] w.client.self.server)
    · change arrived events = q.marshall b.order ++ arrived c.wire.inb.events at harrived
      dsimp only
      rw [harrived, List.length_append, Nat.add_sub_cancel, hs2c]
      exact List.drop_left

/-- What the protocol writes goes into the channel behind what is there. -/
theorem Downward.send (h : Downward b s history w) {sends : List (List SendEvent)} {pipeline : Pipeline}
    (hall : AllSent b w.pipeline.clients.packetsToWrite sends)
    (hf : ∀ p ∈ w.pipeline.clients.packetsToWrite, p.socket = s → Framed p) :
    Downward b s (history ++ ((w.pipeline.clients.write b sends).1.map .sent).map .passed)
      { w with
        pipeline := pipeline
        s2c := w.s2c ++ handedTo b s w.pipeline.clients.packetsToWrite sends } := by
  have hwrite : (w.pipeline.clients.write b sends).1 = w.pipeline.clients.packetsToWrite := by
    rw [ClientInfos.write, Pipeline.writeLoop_allSent hall]
  obtain ⟨taken, rest, hrelay, hsaid, hframed, hwire⟩ := h
  obtain ⟨hpass, -, hheard⟩ := passed_parts (w.pipeline.clients.packetsToWrite.map .sent)
  have hout : reached s (w.pipeline.clients.packetsToWrite.map .sent) =
      w.pipeline.clients.packetsToWrite.filter (·.socket = s) := by
    rw [reached, List.filterMap_map]
    simp [Function.comp_def, Passage.sent?]
  rw [hwrite]
  refine ⟨taken, rest ++ w.pipeline.clients.packetsToWrite.filter (·.socket = s), ?_, ?_, ?_, ?_⟩
  · rw [passages_append, hpass, reached_append, hout]
    exact hrelay.push _
  · rw [heardBy_append, hheard, List.append_nil]
    exact hsaid
  · intro q hq
    rcases List.mem_append.mp hq with hq | hq
    · exact hframed q hq
    · obtain ⟨hmem, hs⟩ := List.mem_filter.mp hq
      exact hf q hmem (of_decide_eq_true hs)
  · intro hopen
    obtain ⟨hs2c, hoffset⟩ := hwire hopen
    refine ⟨?_, hoffset⟩
    dsimp only
    rw [handedTo_allSent hall, hs2c, Stage.wire_append]

/-- The protocol and the two channels of a dialogue. -/
structure Conveyed (b : Build) (callback : ResponseCallback) (s : ℤ) (clientId : List Byte)
    (ans : List Byte → List Byte) (history : List Spoken) (w : Dialogue m) : Prop where
  served : Pipeline.Served callback s clientId ans (passages history) w.pipeline
  up : Upward b s ans history w
  down : Downward b s history w

theorem Conveyed.say (h : Conveyed b callback s clientId ans history w) {packet : NetworkPacket}
    {c : Calling m} (hp : Sayable ans packet) (hs : w.stance ≠ .closed)
    (hc : c.handed = w.client.handed ∨ c.handed = w.client.handed ++ packet.marshall b.order)
    (hb : c.wire.inb.buffer = w.client.wire.inb.buffer) :
    Conveyed b callback s clientId ans (history ++ w.said packet c) (w.say c) := by
  obtain ⟨hpass, hheard, -⟩ := said_parts w packet c
  refine ⟨?_, h.up.say hp hc, h.down.keep (by rw [hheard]; rfl) (by rw [hpass]; rfl) rfl (Or.inr hs) hb⟩
  rw [passages_append, hpass, List.append_nil]
  exact h.served

theorem Conveyed.step (h : Conveyed b callback s clientId ans history w) (hm : sizeBytes ≤ m)
    (hans : ∀ p info, info.clientId = clientId → (callback.run p info).data = ans p.data)
    (hs : Step n b shot callback s ans w more w') :
    Conveyed b callback s clientId ans (history ++ more) w' := by
  have hcall : ∀ {packet : NetworkPacket} {c : Calling m} {result : Result} {polls : List PollEvent}
      {sends : List (List SendEvent)} {clock : ℕ → Timespec}, Framed packet →
      SentWhole b packet (sends.headD []) →
      ClientLearnProtocol.write b packet (w.client.meets [] polls sends clock) = (.ok result, c) →
      (c.handed = w.client.handed ∨ c.handed = w.client.handed ++ packet.marshall b.order) ∧
        c.wire.inb.buffer = w.client.wire.inb.buffer := by
    intro packet c result polls sends clock hframed hw hwrite
    obtain ⟨hhanded, hinb⟩ := ClientLearnProtocol.write_handed (b := b) hframed
      (s := w.client.meets [] polls sends clock) hw
    rw [hwrite] at hhanded hinb
    have hbuffer : c.wire.inb.buffer = _ := congrArg Inbound.buffer hinb
    exact ⟨hhanded, hbuffer⟩
  cases hs with
  | write packet polls sends clock hs hp hw hwrite =>
    obtain ⟨hhanded, hbuffer⟩ := hcall hp.framed hw hwrite
    exact h.say hp (by rw [hs]; decide) hhanded hbuffer
  | @reply result c packet polls sends clock hs hp hw hwrite =>
    have hsay : Sayable ans packet := by
      subst hp
      exact ⟨⟨rfl, show (Commands.blank ++ []).length < 2 ^ 16 by decide⟩,
        show Commands.blank ≠ Commands.Setup.clientID by decide,
        fun hsend => absurd hsend (show Commands.blank ≠ Commands.send by decide)⟩
    obtain ⟨hhanded, hbuffer⟩ := hcall hsay.framed hw hwrite
    exact h.say hsay (by rw [hs]; decide) hhanded hbuffer
  | hear events polls clock hs ha hu hr =>
    refine ⟨?_, h.up.keep rfl rfl rfl rfl, h.down.hear hm hs ha hu hr⟩
    rw [passages_append]
    exact (List.append_nil (passages history)).symm ▸ h.served
  | @feed v v' _ _ event hc hl hv hr hst hp ha ho =>
    obtain ⟨hup, hd⟩ := h.up.feed hv hr hst hp ha ho
    obtain ⟨hpass, -, hheard⟩ :=
      passed_parts ((v'.dispatched.drop v.dispatched.length).map Passage.decoded)
    refine ⟨?_, hup, ?_⟩
    · rw [passages_append, hpass]
      exact h.served.turn hc hl hv fun p hp _ => hd p hp
    · refine h.down.keep (by rw [hheard]; rfl) ?_ rfl ?_ rfl
      · rw [hpass, reached, List.filterMap_map]
        simp [Function.comp_def, Passage.sent?]
      · exact (Decidable.em (w.stance = .closed)).imp_right id
  | send sends he hall =>
    obtain ⟨hpass, hwrote, -⟩ := passed_parts ((w.pipeline.clients.write b sends).1.map .sent)
    refine ⟨?_, h.up.keep hwrote ?_ rfl rfl, h.down.send hall fun p hp hs =>
      h.served.framed p (List.mem_append_left _ hp) hs⟩
    · rw [passages_append, hpass]
      have hstep : Pipeline.Step n b shot callback s w.pipeline
          ((w.pipeline.clients.write b sends).1.map .sent) _ := .write sends he hall
      refine h.served.step hans hstep fun p hp => ?_
      obtain ⟨q, -, heq⟩ := List.mem_map.mp hp
      cases heq
    · rw [hpass]
      exact (Pipeline.passages_sent _).1
  | server hstep hq =>
    obtain ⟨hpass, hwrote, hheard⟩ := passed_parts _
    obtain ⟨hdecoded, hreached⟩ := quiet_parts hq
    refine ⟨?_, h.up.keep hwrote (by rw [hpass]; exact hdecoded) rfl rfl,
      h.down.keep (by rw [hheard]; rfl) (by rw [hpass]; exact hreached) rfl
        ((Decidable.em (w.stance = .closed)).imp_right id) rfl⟩
    rw [passages_append, hpass]
    exact h.served.step hans hstep fun p hp hs => absurd hs (hq _ hp)

/-- A client that has its connection, of which nothing is on its way yet. -/
structure Begins (s : ℤ) (clientId : List Byte) (w : Dialogue m) : Prop where
  registered : s ∈ w.pipeline.clients.clientInfos
  known : ∀ c ∈ w.pipeline.clients.clientInfos.entries, c.socket = s → c.clientId = clientId
  asked : ∀ p ∈ w.pipeline.executing.todo ++ w.pipeline.clients.packetsToRead ++ w.pipeline.readList,
    p.socket ≠ s
  answered : ∀ p ∈ w.pipeline.clients.packetsToWrite ++ w.pipeline.executing.done, p.socket ≠ s
  c2s : w.c2s = []
  s2c : w.s2c = []
  shut : w.shut = false
  stance : w.stance = .ready
  offset : w.client.wire.inb.buffer.offset = 0

/-- Everything has been taken in, answered and read. -/
structure Settled (s : ℤ) (w : Dialogue m) : Prop where
  waiting : w.pipeline.waiting s = []
  answered : w.pipeline.answered s = []
  c2s : w.c2s = []
  s2c : w.s2c = []
  shut : w.shut = false
  stance : w.stance ≠ .closed

end Invariant

/-! ### A `SEND` and its answer -/

def sampleInfo : ClientInfo :=
  { ClientInfo.make 5 25 ⟨0, 0⟩ with clientId := Commands.ascii "one".toList }

def sampleStart : Dialogue 106 :=
  ⟨⟨{ ClientInfos.make with clientInfos := Keyed.empty.insert sampleInfo }, [], .idle⟩,
    sampleCalling sampleInfo.deadline, .ready, [], [], false⟩

/-- What `pollCallback` makes of what the client says. -/
def sampleAnswer (data : List Byte) : List Byte :=
  data ++ Commands.ascii " was received from ".toList ++ Commands.ascii "one".toList

def samplePacket (socket : ℤ) : NetworkPacket := ⟨socket, Commands.send, Commands.ascii "hi".toList⟩

def sampleReply (socket : ℤ) : NetworkPacket :=
  ⟨socket, Commands.send, sampleAnswer (Commands.ascii "hi".toList)⟩

abbrev SampleStep : Dialogue 106 → List Spoken → Dialogue 106 → Prop :=
  Step 106 ⟨true, .little⟩ .single Pipeline.sampleResponse 5 sampleAnswer

theorem begins_sample : sampleStart.Begins 5 (Commands.ascii "one".toList) := by
  refine ⟨by decide, fun c hc _ => ?_, nofun, nofun, rfl, rfl, rfl, rfl, rfl⟩
  obtain rfl := List.mem_singleton.mp hc
  rfl

/-- What the client's `Write` leaves. -/
def sampleWrote : Calling 106 :=
  (ClientLearnProtocol.write ⟨true, .little⟩ (samplePacket 3)
    (sampleStart.client.meets [] [] [] fun _ => ⟨1, 0⟩)).2

def sampleEvent : EpollEvent :=
  { fd := 5, readable := true, recv := [.arrive ((samplePacket 3).marshall .little)], now := ⟨1, 0⟩ }

def sampleView : Polled 106 := ⟨sampleStart.pipeline.clients, sampleBuffer, [], [], [], []⟩

/-- What the client's turn of `Read` comes to. -/
def sampleRead : Except Stop NetworkPacket × Calling 106 :=
  ClientLearnProtocol.readTurn ⟨true, .little⟩ (sampleWrote.meets
    [.arrive ((sampleReply 5).marshall .little)] [] [] fun _ => ⟨2, 0⟩)

theorem sampleRead_reply : sampleRead.1 = .ok (sampleReply 3) := by decide +kernel

theorem sampleRead_whole : Undivided ⟨true, .little⟩ 0 (sampleWrote.meets
    [.arrive ((sampleReply 5).marshall .little)] [] [] fun _ => ⟨2, 0⟩).wire := fun _ =>
  ⟨⟨fun hb => absurd hb.2 (by decide +kernel), fun hb => absurd hb.2 (by decide +kernel)⟩,
    fun hi => absurd hi.2.2 (by decide +kernel)⟩

theorem event_sample : ∃ v, pollEvent ⟨true, .little⟩ .single sampleView sampleEvent = .ok v ∧
    v.dispatched = [samplePacket 5] ∧ v.readList = [samplePacket 5] ∧
    v.clients.packetsToRead = [] ∧ v.clients.packetsToWrite = [] ∧
    (v.clients.clientInfos.find 5).map ClientInfo.clientId = some (Commands.ascii "one".toList) := by
  have hread : (pollEvent ⟨true, .little⟩ .single sampleView sampleEvent).toOption.map (fun v =>
      (v.dispatched, v.readList)) = some ([samplePacket 5], [samplePacket 5]) := by decide +kernel
  have hqueues : (pollEvent ⟨true, .little⟩ .single sampleView sampleEvent).toOption.map (fun v =>
      (v.clients.packetsToRead, v.clients.packetsToWrite)) = some ([], []) := by decide +kernel
  have hclient : (pollEvent ⟨true, .little⟩ .single sampleView sampleEvent).toOption.map (fun v =>
      (v.clients.clientInfos.find 5).map ClientInfo.clientId) =
        some (some (Commands.ascii "one".toList)) := by decide +kernel
  rcases hv : pollEvent ⟨true, .little⟩ .single sampleView sampleEvent with stop | v
  · rw [hv] at hread
    cases hread
  · rw [hv] at hread hqueues hclient
    obtain ⟨hdispatched, hlist⟩ := Prod.mk.inj (Option.some.inj hread)
    obtain ⟨hr, hw⟩ := Prod.mk.inj (Option.some.inj hqueues)
    exact ⟨v, rfl, hdispatched, hlist, hr, hw, Option.some.inj hclient⟩

/-- The client writes; the protocol takes the packet in, hands it on, calls back and writes;
and the client reads. -/
theorem run_sample : ∃ history w,
    Run SampleStep sampleStart history w ∧
      saying (wroteBy history) = [Commands.ascii "hi".toList] ∧ w.Settled 5 := by
  have hwrite : Step 106 ⟨true, .little⟩ .single Pipeline.sampleResponse 5 sampleAnswer sampleStart
      [.wrote (samplePacket 3)] (sampleStart.say sampleWrote) :=
    .write (samplePacket 3) [] [] (fun _ => ⟨1, 0⟩) rfl
      ⟨⟨rfl, by decide⟩, by decide, fun _ => by decide⟩
      (by unfold SentWhole; decide) (Prod.ext (show _ = Except.ok { noOfBytes := 8 } from rfl) rfl)
  obtain ⟨v, hv, hdispatched, hlist, hreads, hwrites, hclient⟩ := event_sample
  have hfeed : SampleStep (sampleStart.say sampleWrote) _ _ :=
    .feed (v := sampleView) sampleEvent rfl rfl hv
      (show readFrom ⟨true, .little⟩ 5 sampleView sampleEvent = some sampleInfo from rfl) rfl
      ⟨fun hb => absurd hb.2 (by decide), fun hb => absurd hb.2 (by decide)⟩ (by decide) rfl
  rw [hdispatched, hlist] at hfeed
  generalize v.clients = cs at hfeed hreads hwrites hclient
  obtain ⟨infos, updateIssued, pollInEvents, reads, writes⟩ := cs
  obtain rfl : reads = [] := hreads
  obtain rfl : writes = [] := hwrites
  obtain ⟨info, hinfo, hid⟩ := Option.map_eq_some_iff.mp hclient
  obtain ⟨_ | ⟨first, entries⟩, hnodup⟩ := infos
  · cases hinfo
  let w (reads writes list : List NetworkPacket) (executing : Executing) (s2c : List Byte) : Dialogue 106 :=
    ⟨⟨⟨⟨first :: entries, hnodup⟩, updateIssued, pollInEvents, reads, writes⟩, list, executing⟩,
      sampleWrote, .ready, [], s2c, false⟩
  have hfeed' : SampleStep (sampleStart.say sampleWrote) [.passed (.decoded (samplePacket 5))]
      (w [] [] [samplePacket 5] .idle []) := hfeed
  have hhandOn : SampleStep (w [] [] [samplePacket 5] .idle []) [] (w [samplePacket 5] [] [] .idle []) :=
    .server .handOn (by simp)
  have hdrain : SampleStep (w [samplePacket 5] [] [] .idle []) []
      (w [] [] [] (.drained [samplePacket 5]) []) := .server (.drain rfl) (by simp)
  have henter : SampleStep (w [] [] [] (.drained [samplePacket 5]) []) []
      (w [] [] [] (.calling [] [samplePacket 5]) []) := .server (.enter rfl) (by simp)
  have hresult : Pipeline.call (w [] [] [] .idle []).pipeline.clients Pipeline.sampleResponse.run
      (samplePacket 5) = (sampleReply 5, [.executed (samplePacket 5) info]) := by
    have hfind : (w [] [] [] .idle []).pipeline.clients.clientInfos.find (samplePacket 5).socket =
        some info := hinfo
    have hrun : Pipeline.sampleResponse.run (samplePacket 5) info = sampleReply 5 := by
      change NetworkPacket.mk _ _ (_ ++ _ ++ info.clientId) = _
      rw [hid]
      rfl
    simp only [Pipeline.call, hfind, hrun]
  have hcall : SampleStep (w [] [] [] (.calling [] [samplePacket 5]) [])
      [.passed (.executed (samplePacket 5) info)] (w [] [] [] (.calling [sampleReply 5] []) []) := by
    have hstep : Pipeline.Step 106 ⟨true, .little⟩ .single Pipeline.sampleResponse 5
        (w [] [] [] (.calling [] [samplePacket 5]) []).pipeline _ _ := .call rfl
    rw [show Pipeline.call _ _ _ = _ from hresult] at hstep
    exact .server hstep (by simp [Passage.Reaches])
  have happend : SampleStep (w [] [] [] (.calling [sampleReply 5] []) []) []
      (w [] [sampleReply 5] [] .idle []) := .server (.append rfl) (by simp)
  have hsend : SampleStep (w [] [sampleReply 5] [] .idle []) [.passed (.sent (sampleReply 5))]
      (w [] [] [] .idle ((sampleReply 5).marshall .little)) := by
    refine .send [] rfl fun i packet hp => ?_
    obtain rfl : sampleReply 5 = packet := List.mem_singleton.mp (List.mem_of_getElem? hp) |>.symm
    exact ⟨_, rfl, rfl, rfl⟩
  have hhear : SampleStep (w [] [] [] .idle ((sampleReply 5).marshall .little))
      [.heard (sampleReply 3)] { w [] [] [] .idle [] with client := sampleRead.2 } :=
    .hear [.arrive ((sampleReply 5).marshall .little)] [] (fun _ => ⟨2, 0⟩) rfl
      (show _ ++ [] <+: _ by rw [List.append_nil]) sampleRead_whole (Prod.ext sampleRead_reply rfl)
  have hrun := (((((((((Run.start.next hwrite).next hfeed').next hhandOn).next hdrain).next henter).next
    hcall).next happend).next hsend).next hhear)
  refine ⟨_, _, hrun, rfl, ⟨rfl, rfl, rfl, rfl, rfl, by simp⟩⟩

end Dialogue

end PollServer
