import PollServer.Serve.Closing
import PollServer.Serve.Delivery
import PollServer.Write.Responses

/-! The way of the `SEND`s of one client through a protocol: from the polling thread's list
to the packets that wait to be executed, to the list of `Execute`, to the packets that wait
to be written. The polling thread goes on turn by turn, the thread that executes and writes
section by section, and others add and close clients and warn them. -/

namespace PollServer

open Lib NetworkPacket ClientInfos

/-- A callback that answers a client's `SEND` with a `SEND` to it. -/
structure ResponseCallback extends Callback where
  command_run : ∀ packet clientInfo, (run packet clientInfo).command = packet.command

/-- Where the executing thread stands in `Execute`. -/
inductive Executing where
  | idle
  | drained (tempList : List NetworkPacket)
  | calling (done todo : List NetworkPacket)

namespace Executing

/-- What the callback has gone over. -/
def done : Executing → List NetworkPacket
  | calling done _ => done
  | _ => []

/-- What it has yet to go over. -/
def todo : Executing → List NetworkPacket
  | idle => []
  | drained tempList => tempList
  | calling _ todo => todo

end Executing

/-- `readList` is what the polling thread has read and not yet handed on. -/
structure Pipeline where
  clients : ClientInfos
  readList : List NetworkPacket
  executing : Executing

inductive Passage where
  | decoded (packet : NetworkPacket)
  | executed (packet : NetworkPacket) (clientInfo : ClientInfo)
  | sent (packet : NetworkPacket)

namespace Passage

def decoded? : Passage → Option NetworkPacket
  | decoded packet => some packet
  | _ => none

def executed? : Passage → Option (NetworkPacket × ClientInfo)
  | executed packet clientInfo => some (packet, clientInfo)
  | _ => none

def sent? : Passage → Option NetworkPacket
  | sent packet => some packet
  | _ => none

end Passage

/-- Every packet goes out as it is. -/
def AllSent (b : Build) (packets : List NetworkPacket) (sends : List (List SendEvent)) : Prop :=
  ∀ i packet, packets[i]? = some packet → ∃ sent,
    sendRaw b (packet.marshall b.order) (sends.getD i []) = .ok sent ∧
      sent.wire = packet.marshall b.order ∧ sent.result.socketClosed = false

namespace Pipeline

/-- The packet as the callback leaves it, with what the callback was given. -/
def call (cs : ClientInfos) (callback : NetworkPacket → ClientInfo → NetworkPacket)
    (packet : NetworkPacket) : NetworkPacket × List Passage :=
  match cs.clientInfos.find packet.socket with
  | some info => (callback packet info, [.executed packet info])
  | none => (packet, [])

/-- The sections, each under its lock. No step takes `s` out of the clients. -/
inductive Step (n : ℕ) (b : Build) (shot : Shot) (callback : ResponseCallback) (s : ℤ) :
    Pipeline → List Passage → Pipeline → Prop where
  | turn {w : Pipeline} {v v' : Polled n} (event : EpollEvent) (hc : v.clients = w.clients)
      (hl : v.readList = w.readList) (h : pollEvent b shot v event = .ok v') :
      Step n b shot callback s w ((v'.dispatched.drop v.dispatched.length).map .decoded)
        { w with clients := v'.clients, readList := v'.readList }
  | handOn {w : Pipeline} :
      Step n b shot callback s w []
        { w with
          clients := { w.clients with packetsToRead := w.clients.packetsToRead ++ w.readList }
          readList := [] }
  | drain {w : Pipeline} (he : w.executing = .idle) :
      Step n b shot callback s w []
        { w with
          clients := { w.clients with packetsToRead := [] }
          executing :=
            if w.clients.packetsToRead.isEmpty then .idle else .drained w.clients.packetsToRead }
  | enter {w : Pipeline} {tempList : List NetworkPacket} (he : w.executing = .drained tempList) :
      Step n b shot callback s w []
        { w with
          executing := if w.clients.clientInfos.entries.isEmpty then .idle else .calling [] tempList }
  | call {w : Pipeline} {done todo : List NetworkPacket} {packet : NetworkPacket}
      (he : w.executing = .calling done (packet :: todo)) :
      Step n b shot callback s w (call w.clients callback.run packet).2
        { w with executing := .calling (done ++ [(call w.clients callback.run packet).1]) todo }
  | append {w : Pipeline} {done : List NetworkPacket} (he : w.executing = .calling done []) :
      Step n b shot callback s w []
        { w with
          clients := { w.clients with packetsToWrite := w.clients.packetsToWrite ++ done }
          executing := .idle }
  | write {w : Pipeline} (sends : List (List SendEvent)) (he : w.executing = .idle)
      (hs : AllSent b w.clients.packetsToWrite sends) :
      Step n b shot callback s w ((w.clients.write b sends).1.map .sent)
        { w with clients := (w.clients.write b sends).2.2 }
  | check {w : Pipeline} (socketsSelected : List ℤ) (hs : socketsSelected.Nodup) :
      Step n b shot callback s w []
        { w with clients := (w.clients.filterSocketsToTerminate socketsSelected).2 }
  | update {w : Pipeline} : Step n b shot callback s w [] { w with clients := w.clients.update }
  | insert {w : Pipeline} (c : ClientInfo) :
      Step n b shot callback s w [] { w with clients := w.clients.insert c }
  | close {w : Pipeline} (sockets : List ℤ) (hs : s ∉ sockets) (balancer : Priority)
      (balancerIndex : ℕ) :
      Step n b shot callback s w []
        { w with clients := (ClientInfos.close sockets w.clients balancer balancerIndex).2.1 }
  | removeOldest {w : Pipeline} (socket : ℤ) (now : Timespec)
      (hs : (w.clients.removeOldestClientAndReturn socket now).1.socket ≠ s) :
      Step n b shot callback s w []
        { w with clients := (w.clients.removeOldestClientAndReturn socket now).2 }

/-- The `SEND`s of the socket. -/
def sendsOf (s : ℤ) (packets : List NetworkPacket) : List NetworkPacket :=
  packets.filter fun p => p.socket = s ∧ p.IsSend

variable (s : ℤ)

def decodedOf (history : List Passage) : List NetworkPacket :=
  sendsOf s (history.filterMap Passage.decoded?)

def sentTo (history : List Passage) : List NetworkPacket :=
  sendsOf s (history.filterMap Passage.sent?)

/-- The `SEND`s of the socket that the callback went over, with the clients it was given. -/
def executedOf (history : List Passage) : List (NetworkPacket × ClientInfo) :=
  (history.filterMap Passage.executed?).filter fun x => x.1.socket = s ∧ x.1.IsSend

/-- Decoded, and on the way to the callback. -/
def waiting (w : Pipeline) : List NetworkPacket :=
  sendsOf s (w.executing.todo ++ w.clients.packetsToRead ++ w.readList)

/-- Answered, and on the way to be written. -/
def answered (w : Pipeline) : List NetworkPacket :=
  sendsOf s (w.clients.packetsToWrite ++ w.executing.done)

section Lists

variable {s} {packets packets' : List NetworkPacket} {history es : List Passage}

theorem sendsOf_append : sendsOf s (packets ++ packets') = sendsOf s packets ++ sendsOf s packets' :=
  List.filter_append _ _

theorem sendsOf_sends : sendsOf s (packets.filter (IsSend ·)) = sendsOf s packets := by
  rw [sendsOf, sendsOf, List.filter_filter]
  apply List.filter_congr
  intro p _
  simp

theorem sendsOf_eq_nil (h : ∀ p ∈ packets, ¬p.IsSend) : sendsOf s packets = [] := by
  rw [sendsOf, List.filter_eq_nil_iff]
  intro p hp
  simp [h p hp]

theorem decodedOf_append : decodedOf s (history ++ es) = decodedOf s history ++ decodedOf s es := by
  rw [decodedOf, List.filterMap_append, sendsOf_append]
  rfl

theorem sentTo_append : sentTo s (history ++ es) = sentTo s history ++ sentTo s es := by
  rw [sentTo, List.filterMap_append, sendsOf_append]
  rfl

theorem executedOf_append :
    executedOf s (history ++ es) = executedOf s history ++ executedOf s es := by
  rw [executedOf, List.filterMap_append, List.filter_append]
  rfl

/-- What a turn decodes is neither executed nor sent by it. -/
theorem passages_decoded (packets : List NetworkPacket) :
    decodedOf s (packets.map .decoded) = sendsOf s packets ∧
      sentTo s (packets.map .decoded) = [] ∧ executedOf s (packets.map .decoded) = [] := by
  rw [decodedOf, sentTo, executedOf, List.filterMap_map, List.filterMap_map, List.filterMap_map]
  simp [Function.comp_def, Passage.decoded?, Passage.sent?, Passage.executed?, sendsOf]

theorem passages_sent (packets : List NetworkPacket) :
    decodedOf s (packets.map .sent) = [] ∧ sentTo s (packets.map .sent) = sendsOf s packets ∧
      executedOf s (packets.map .sent) = [] := by
  rw [decodedOf, sentTo, executedOf, List.filterMap_map, List.filterMap_map, List.filterMap_map]
  simp [Function.comp_def, Passage.decoded?, Passage.sent?, Passage.executed?, sendsOf]

end Lists

section Sections

variable (callback : ResponseCallback) {s}

theorem call_packet (cs : ClientInfos) (packet : NetworkPacket) :
    (call cs callback.run packet).1 = cs.respond callback.run packet ∧
      (call cs callback.run packet).1.socket = packet.socket ∧
      ((call cs callback.run packet).1.IsSend ↔ packet.IsSend) := by
  unfold call respond
  cases cs.clientInfos.find packet.socket with
  | none => exact ⟨rfl, rfl, Iff.rfl⟩
  | some info =>
    refine ⟨rfl, callback.socket_run _ _, ?_⟩
    rw [IsSend, IsSend, callback.command_run]

theorem call_registered {cs : ClientInfos} {packet : NetworkPacket}
    (hs : packet.socket ∈ cs.clientInfos) :
    ∃ info, call cs callback.run packet = (callback.run packet info, [.executed packet info]) := by
  obtain ⟨info, hinfo⟩ := (Keyed.mem_iff_find _).mp hs
  exact ⟨info, by simp only [call, hinfo]⟩

theorem passages_call (cs : ClientInfos) (packet : NetworkPacket) :
    decodedOf s (call cs callback.run packet).2 = [] ∧
      sentTo s (call cs callback.run packet).2 = [] := by
  unfold call
  cases cs.clientInfos.find packet.socket <;> exact ⟨rfl, rfl⟩

theorem writeLoop_allSent {b : Build} {packets : List NetworkPacket} {sends : List (List SendEvent)}
    (h : AllSent b packets sends) : writeLoop b packets sends = (packets, .ok none) := by
  induction packets generalizing sends with
  | nil => rfl
  | cons packet packets ih =>
    obtain ⟨sent, hsent, -, hopen⟩ := h 0 packet rfl
    rw [← List.headD_eq_getD] at hsent
    have hrest : writeLoop b packets sends.tail = (packets, .ok none) := ih fun i p hp => by
      rw [← getD_succ_tail]
      exact h (i + 1) p hp
    simp only [writeLoop, hsent, hopen, hrest]
    rfl

theorem not_isSend_answer {p q : NetworkPacket} (h : p.answer = some q) : ¬q.IsSend := by
  unfold answer at h
  split_ifs at h
  · cases h
    exact show ¬Commands.Setup.syn = Commands.send by decide
  · cases h
    exact show ¬Commands.Setup.join = Commands.send by decide

theorem not_isSend_heartBeat (socket : ℤ) : ¬(heartBeatTo socket).IsSend :=
  show ¬Commands.heartBeat = Commands.send by decide

end Sections

section Invariant

variable {n : ℕ} {b : Build} {shot : Shot} {callback : ResponseCallback} {s} {w w' : Pipeline}
  {history es : List Passage}

/-- **Nothing is lost, duplicated or put out of order** on either side of the callback. -/
structure Kept (callback : ResponseCallback) (s : ℤ) (history : List Passage) (w : Pipeline) :
    Prop where
  registered : s ∈ w.clients.clientInfos
  requests : decodedOf s history = (executedOf s history).map Prod.fst ++ w.waiting s
  responses : sentTo s history ++ w.answered s =
    (executedOf s history).map fun x => callback.run x.1 x.2

/-- A section that moves no packet of the socket past the callback or the sends. -/
theorem Kept.quiet (h : Kept callback s history w) (hs : s ∈ w'.clients.clientInfos)
    (hw : w'.waiting s = w.waiting s) (ha : w'.answered s = w.answered s) :
    Kept callback s (history ++ []) w' := by
  rw [List.append_nil]
  exact ⟨hs, by rw [hw]; exact h.requests, by rw [ha]; exact h.responses⟩

theorem Kept.turn (h : Kept callback s history w) {v v' : Polled n} {event : EpollEvent}
    (hc : v.clients = w.clients) (hl : v.readList = w.readList)
    (hv : pollEvent b shot v event = .ok v') :
    Kept callback s (history ++ (v'.dispatched.drop v.dispatched.length).map .decoded)
      { w with clients := v'.clients, readList := v'.readList } := by
  obtain ⟨ps, hps⟩ := pollEvent_heard b shot _ event v' hv
  have hd : v'.dispatched.drop v.dispatched.length = ps := by
    rw [hps.dispatched, List.drop_left]
  obtain ⟨hdec, hsent, hexec⟩ := passages_decoded (s := s) ps
  rw [hd]
  refine ⟨(hps.mem_clients s).mpr (by rw [hc]; exact h.registered), ?_, ?_⟩
  · have hwaiting : waiting s { w with clients := v'.clients, readList := v'.readList } =
        w.waiting s ++ sendsOf s ps := by
      rw [waiting, waiting, hps.readList, hps.packetsToRead, hc, hl]
      simp only [sendsOf_append, sendsOf_sends, List.append_assoc]
    rw [decodedOf_append, executedOf_append, hdec, hexec, List.append_nil, hwaiting, h.requests,
      List.append_assoc]
  · have hreplies : sendsOf s (ps.filterMap answer) = [] := by
      apply sendsOf_eq_nil
      intro q hq
      obtain ⟨p, -, hp⟩ := List.mem_filterMap.mp hq
      exact not_isSend_answer hp
    have hanswered : answered s { w with clients := v'.clients, readList := v'.readList } =
        w.answered s := by
      rw [answered, answered, hps.packetsToWrite, hc]
      simp only [sendsOf_append, hreplies, List.append_nil]
    rw [sentTo_append, executedOf_append, hsent, hexec, List.append_nil, List.append_nil, hanswered]
    exact h.responses

theorem Kept.call (h : Kept callback s history w) {done todo : List NetworkPacket}
    {packet : NetworkPacket} (he : w.executing = .calling done (packet :: todo)) :
    Kept callback s (history ++ (call w.clients callback.run packet).2)
      { w with executing :=
        .calling (done ++ [(Pipeline.call w.clients callback.run packet).1]) todo } := by
  obtain ⟨hdec, hsent⟩ := passages_call callback (s := s) w.clients packet
  have hdecoded := h.requests
  have hanswered := h.responses
  simp only [waiting, answered, he, Executing.todo, Executing.done] at hdecoded hanswered
  by_cases hp : packet.socket = s ∧ packet.IsSend
  · obtain ⟨info, hcall⟩ := call_registered callback
      (show packet.socket ∈ w.clients.clientInfos by rw [hp.1]; exact h.registered)
    have hfirst : ∀ rest, sendsOf s (packet :: rest) = packet :: sendsOf s rest := fun rest =>
      List.filter_cons_of_pos (by simp [hp])
    have himage : sendsOf s [callback.run packet info] = [callback.run packet info] := by
      have hkeep : (callback.run packet info).socket = s ∧ (callback.run packet info).IsSend := by
        rw [callback.socket_run, IsSend, callback.command_run]
        exact hp
      rw [sendsOf, List.filter_cons_of_pos (by simp [hkeep]), List.filter_nil]
    have hexec : executedOf s [.executed packet info] = [(packet, info)] := by
      rw [executedOf]
      exact List.filter_cons_of_pos (by simp [hp])
    rw [hcall] at hdec hsent ⊢
    refine ⟨h.registered, ?_, ?_⟩
    · rw [decodedOf_append, executedOf_append, hdec, hexec, hdecoded, waiting]
      simp only [Executing.todo, List.cons_append, hfirst, List.append_nil, List.map_append,
        List.map_cons, List.map_nil, List.append_assoc, List.nil_append]
    · rw [sentTo_append, executedOf_append, hsent, hexec, List.append_nil, List.map_append,
        ← hanswered, answered]
      simp only [Executing.done, sendsOf_append, himage, List.append_assoc, List.map_cons,
        List.map_nil]
  · have hrest : ∀ rest, sendsOf s (packet :: rest) = sendsOf s rest := fun rest =>
      List.filter_cons_of_neg (by simpa using hp)
    obtain ⟨-, hsocket, hsend⟩ := call_packet callback w.clients packet
    have himage : sendsOf s [(Pipeline.call w.clients callback.run packet).1] = [] := by
      apply List.filter_cons_of_neg
      simpa [hsocket, hsend] using hp
    have hexec : executedOf s (Pipeline.call w.clients callback.run packet).2 = [] := by
      unfold Pipeline.call
      cases w.clients.clientInfos.find packet.socket with
      | none => rfl
      | some info =>
        rw [executedOf]
        exact List.filter_cons_of_neg (by simpa using hp)
    refine ⟨h.registered, ?_, ?_⟩
    · rw [decodedOf_append, executedOf_append, hdec, hexec, hdecoded, waiting]
      simp only [Executing.todo, List.cons_append, hrest, List.append_nil]
    · rw [sentTo_append, executedOf_append, hsent, hexec, List.append_nil, List.append_nil,
        ← hanswered, answered]
      simp only [Executing.done, sendsOf_append, himage, List.append_nil]

theorem Kept.write (h : Kept callback s history w) {sends : List (List SendEvent)}
    (he : w.executing = .idle) (hs : AllSent b w.clients.packetsToWrite sends) :
    Kept callback s (history ++ (w.clients.write b sends).1.map .sent)
      { w with clients := (w.clients.write b sends).2.2 } := by
  have hloop := writeLoop_allSent hs
  have hwrite : w.clients.write b sends =
      (w.clients.packetsToWrite, .ok none, { w.clients with packetsToWrite := [] }) := by
    rw [ClientInfos.write, hloop]
  rw [hwrite]
  obtain ⟨hdec, hsent, hexec⟩ := passages_sent (s := s) w.clients.packetsToWrite
  have hanswered := h.responses
  simp only [answered, he, Executing.done, List.append_nil] at hanswered
  refine ⟨h.registered, ?_, ?_⟩
  · rw [decodedOf_append, executedOf_append, hdec, hexec, List.append_nil, List.append_nil]
    exact h.requests
  · rw [sentTo_append, executedOf_append, hsent, hexec, List.append_nil, answered, he]
    simpa [Executing.done, sendsOf] using hanswered

theorem Kept.check (h : Kept callback s history w) {sockets : List ℤ} (hs : sockets.Nodup) :
    Kept callback s (history ++ [])
      { w with clients := (w.clients.filterSocketsToTerminate sockets).2 } := by
  obtain ⟨-, hwarn, hinfos⟩ := filterSockets_spec hs w.clients.clientInfos
  refine h.quiet ?_ rfl ?_
  · rw [Keyed.mem_def]
    change s ∈ (filterSockets sockets w.clients.clientInfos).2.2.keys
    rw [hinfos.keys fun _ _ hw => hw.socket]
    exact h.registered
  · have hbeats : sendsOf s (filterSockets sockets w.clients.clientInfos).2.1 = [] := by
      rw [hwarn]
      apply sendsOf_eq_nil
      intro q hq
      obtain ⟨socket, -, rfl⟩ := List.mem_map.mp hq
      exact not_isSend_heartBeat socket
    rw [answered, answered]
    change sendsOf s (w.clients.packetsToWrite ++ _ ++ w.executing.done) = _
    simp only [sendsOf_append, hbeats, List.append_nil]

theorem Kept.step (h : Kept callback s history w) (hs : Step n b shot callback s w es w') :
    Kept callback s (history ++ es) w' := by
  cases hs with
  | turn event hc hl hv => exact h.turn hc hl hv
  | handOn =>
    refine h.quiet h.registered ?_ rfl
    simp [waiting]
  | drain he =>
    refine h.quiet h.registered ?_ ?_
    · simp only [waiting, he]
      split_ifs with hr
      · simp [List.isEmpty_iff.mp hr, Executing.todo]
      · simp [Executing.todo]
    · simp only [answered, he]
      split_ifs <;> rfl
  | @enter tempList he =>
    have hne : ¬w.clients.clientInfos.entries.isEmpty = true := by
      intro hnil
      have hreg := h.registered
      rw [Keyed.mem_def, Keyed.keys, List.isEmpty_iff.mp hnil] at hreg
      exact absurd hreg List.not_mem_nil
    simp only [if_neg hne]
    refine h.quiet h.registered ?_ ?_ <;> simp [waiting, answered, he, Executing.todo, Executing.done]
  | call he => exact h.call he
  | append he =>
    refine h.quiet h.registered ?_ ?_ <;> simp [waiting, answered, he, Executing.todo, Executing.done]
  | write sends he hs => exact h.write he hs
  | check sockets hs => exact h.check hs
  | update =>
    obtain ⟨hinfos, hread, hwrite⟩ := w.clients.update_eq
    apply h.quiet (by rw [hinfos]; exact h.registered)
    · simp only [waiting, hread]
    · simp only [answered, hwrite]
  | insert c => exact h.quiet ((Keyed.mem_insert _).mpr (Or.inr h.registered)) rfl rfl
  | close sockets hs balancer balancerIndex =>
    rw [close_clients]
    exact h.quiet ((Keyed.mem_eraseAll _).mpr ⟨h.registered, hs⟩) rfl rfl
  | removeOldest socket now hs =>
    unfold removeOldestClientAndReturn at hs ⊢
    cases ho : w.clients.oldest socket with
    | none => exact h.quiet h.registered rfl rfl
    | some c =>
      rw [ho] at hs
      exact h.quiet ((Keyed.mem_erase _).mpr ⟨h.registered, Ne.symm hs⟩) rfl rfl

/-- **The request pipeline is first in, first out.** What was sent to a client, what is on
the way to it, and what the callback will make of what waits for it, is what the callback
makes of the client's `SEND`s in the order in which they were decoded. `next` is the client
as the callback will be given it. -/
theorem pipeline_fifo {clients : ClientInfos} (hs : s ∈ clients.clientInfos)
    (hread : clients.packetsToRead = []) (hwrite : clients.packetsToWrite = [])
    (hr : Run (Step n b shot callback s) ⟨clients, [], .idle⟩ history w) :
    decodedOf s history = (executedOf s history).map Prod.fst ++ w.waiting s ∧
      ∀ next : NetworkPacket → ClientInfo,
        sentTo s history ++ w.answered s ++ (w.waiting s).map (fun p => callback.run p (next p)) =
          (decodedOf s history).zipWith callback.run
            ((executedOf s history).map Prod.snd ++ (w.waiting s).map next) := by
  have hstart : Kept callback s [] ⟨clients, [], .idle⟩ := by
    refine ⟨hs, ?_, ?_⟩
    · simp [waiting, hread, decodedOf, executedOf, sendsOf, Executing.todo]
    · simp [answered, hwrite, sentTo, executedOf, sendsOf, Executing.done]
  have h := hr.invariant hstart fun _ _ _ _ h hs => h.step hs
  refine ⟨h.requests, fun next => ?_⟩
  rw [h.responses, h.requests, List.zipWith_append (by simp), List.zipWith_map, List.zipWith_map_right,
    List.zipWith_self, List.zipWith_self]

def sampleSend (data : List Byte) : NetworkPacket := ⟨5, Commands.send, data⟩

def sampleResponse : ResponseCallback := ⟨Net.sampleCallback, fun _ _ => rfl⟩

def sampleAnswer (data : List Byte) : NetworkPacket :=
  sampleResponse.run (sampleSend data) (.make 5 25 ⟨0, 0⟩)

/-- The client has sent two packets at once. -/
def sampleEvent : EpollEvent :=
  { fd := 5
    readable := true
    recv := [.arrive ((sampleSend [1]).marshall .little ++ (sampleSend [2]).marshall .little)] }

def sampleView : Polled 106 :=
  ⟨{ ClientInfos.make with clientInfos := Keyed.empty.insert (.make 5 25 ⟨0, 0⟩) },
    sampleBuffer, [], [], [], []⟩

theorem event_sample : ∃ v, pollEvent ⟨true, .little⟩ .multi sampleView sampleEvent = .ok v ∧
    v.dispatched = [sampleSend [1], sampleSend [2]] ∧ v.readList = [sampleSend [1], sampleSend [2]] ∧
    v.clients.packetsToRead = [] ∧ v.clients.packetsToWrite = [] ∧
    (v.clients.clientInfos.find 5).map ClientInfo.clientId = some [] := by
  have hread : (pollEvent ⟨true, .little⟩ .multi sampleView sampleEvent).toOption.map (fun v =>
      (v.dispatched, v.readList)) =
        some ([sampleSend [1], sampleSend [2]], [sampleSend [1], sampleSend [2]]) := by
    decide +kernel
  have hclients : (pollEvent ⟨true, .little⟩ .multi sampleView sampleEvent).toOption.map (fun v =>
      (v.clients.packetsToRead, v.clients.packetsToWrite,
        (v.clients.clientInfos.find 5).map ClientInfo.clientId)) = some ([], [], some []) := by
    decide +kernel
  rcases hv : pollEvent ⟨true, .little⟩ .multi sampleView sampleEvent with stop | v
  · rw [hv] at hread
    cases hread
  · rw [hv] at hread hclients
    obtain ⟨hdispatched, hlist⟩ := Prod.mk.inj (Option.some.inj hread)
    obtain ⟨hr, hw, hid⟩ := by simpa [Except.toOption] using hclients
    exact ⟨v, rfl, hdispatched, hlist, hr, hw, by simpa using hid⟩

abbrev SampleStep : Pipeline → List Passage → Pipeline → Prop :=
  Step 106 ⟨true, .little⟩ .multi sampleResponse 5

/-- Both packets are read, executed and written. -/
theorem run_sample : ∃ history w, Run SampleStep ⟨sampleView.clients, [], .idle⟩ history w ∧
    decodedOf 5 history = [sampleSend [1], sampleSend [2]] ∧
    (executedOf 5 history).map (fun x => sampleResponse.run x.1 x.2) =
      [sampleAnswer [1], sampleAnswer [2]] ∧
    w.waiting 5 = [] ∧ w.answered 5 = [] := by
  obtain ⟨v, hv, hdispatched, hlist, hreads, hwrites, hclient⟩ := event_sample
  have hturn : SampleStep ⟨sampleView.clients, [], .idle⟩ (v.dispatched.map .decoded)
      ⟨v.clients, v.readList, .idle⟩ := .turn (v := sampleView) sampleEvent rfl rfl hv
  rw [hdispatched, hlist] at hturn
  generalize v.clients = cs at hturn hreads hwrites hclient
  obtain ⟨infos, updateIssued, pollInEvents, reads, writes⟩ := cs
  obtain rfl : reads = [] := hreads
  obtain rfl : writes = [] := hwrites
  obtain ⟨info, hinfo, hid⟩ := Option.map_eq_some_iff.mp hclient
  obtain ⟨_ | ⟨first, entries⟩, hnodup⟩ := infos
  · cases hinfo
  let ps := [sampleSend [1], sampleSend [2]]
  let w (reads writes list : List NetworkPacket) (executing : Executing) : Pipeline :=
    ⟨⟨⟨first :: entries, hnodup⟩, updateIssued, pollInEvents, reads, writes⟩, list, executing⟩
  have hanswer : ∀ data, sampleResponse.run (sampleSend data) info = sampleAnswer data := by
    intro data
    change NetworkPacket.mk _ _ (_ ++ _ ++ info.clientId) = _
    rw [hid]
    rfl
  have hcall : ∀ data, call (w [] [] [] .idle).clients sampleResponse.run (sampleSend data) =
      (sampleAnswer data, [.executed (sampleSend data) info]) := by
    intro data
    have hfind : (w [] [] [] .idle).clients.clientInfos.find (sampleSend data).socket = some info :=
      hinfo
    simp only [call, hfind, hanswer]
  have hturn' : SampleStep ⟨sampleView.clients, [], .idle⟩ (ps.map .decoded) (w [] [] ps .idle) := hturn
  have hhandOn : SampleStep (w [] [] ps .idle) [] (w ps [] [] .idle) := .handOn
  have hdrain : SampleStep (w ps [] [] .idle) [] (w [] [] [] (.drained ps)) := .drain rfl
  have henter : SampleStep (w [] [] [] (.drained ps)) [] (w [] [] [] (.calling [] ps)) := .enter rfl
  have hcalls : ∀ done data todo, SampleStep (w [] [] [] (.calling done (sampleSend data :: todo)))
      [.executed (sampleSend data) info]
      (w [] [] [] (.calling (done ++ [sampleAnswer data]) todo)) := by
    intro done data todo
    have hstep : SampleStep (w [] [] [] (.calling done (sampleSend data :: todo))) _ _ := .call rfl
    rwa [show call _ _ _ = _ from hcall data] at hstep
  let answers := [sampleAnswer [1], sampleAnswer [2]]
  have happend : SampleStep (w [] [] [] (.calling answers [])) [] (w [] answers [] .idle) := .append rfl
  have hwrite : SampleStep (w [] answers [] .idle) (answers.map .sent) (w [] [] [] .idle) := by
    refine .write [] rfl fun i packet hp => ?_
    rcases List.mem_pair.mp (List.mem_of_getElem? hp) with rfl | rfl <;> exact ⟨_, rfl, rfl, rfl⟩
  have hrun := ((((((Run.start.next hturn').next hhandOn).next hdrain).next henter).next
    (hcalls [] [1] [sampleSend [2]])).next (hcalls _ [2] [])).next happend |>.next hwrite
  refine ⟨_, _, hrun, rfl, ?_, rfl, rfl⟩
  exact congrArg₂ (fun p q => [p, q]) (hanswer [1]) (hanswer [2])

theorem pipeline_fifo_two : ∃ history w, Run SampleStep ⟨sampleView.clients, [], .idle⟩ history w ∧
    sentTo 5 history = [sampleAnswer [1], sampleAnswer [2]] := by
  obtain ⟨history, w, hr, hdecoded, hexecuted, hwaiting, hanswered⟩ := run_sample
  obtain ⟨hrequests, hresponses⟩ := pipeline_fifo (by decide) rfl rfl hr
  have hsent := hresponses fun _ => .make 5 25 ⟨0, 0⟩
  rw [hwaiting, hanswered] at hsent
  rw [hrequests, hwaiting] at hsent
  refine ⟨history, w, hr, ?_⟩
  rw [← hexecuted]
  simpa [List.zipWith_map, List.zipWith_self] using hsent

end Invariant

section Whole

variable {n : ℕ} {b : Build} {shot : Shot} {callback : ResponseCallback} {s}

theorem calls_run (clients : ClientInfos) (readList done todo : List NetworkPacket) :
    ∃ es, Run (Step n b shot callback s) ⟨clients, readList, .calling done todo⟩ es
      ⟨clients, readList, .calling (done ++ todo.map (clients.respond callback.run)) []⟩ := by
  induction todo generalizing done with
  | nil => exact ⟨[], by simpa using Run.start⟩
  | cons packet todo ih =>
    obtain ⟨es, hes⟩ := ih (done ++ [clients.respond callback.run packet])
    have hcall : Step n b shot callback s ⟨clients, readList, .calling done (packet :: todo)⟩ _
        ⟨clients, readList, .calling (done ++ [(call clients callback.run packet).1]) todo⟩ :=
      .call rfl
    rw [(call_packet callback clients packet).1] at hcall
    rw [List.append_assoc] at hes
    exact ⟨_, (Run.start.next hcall).append hes⟩

/-- **The sections of `Execute` in a row are `execute`.** -/
theorem execute_run (clients : ClientInfos) (readList : List NetworkPacket) :
    ∃ es, Run (Step n b shot callback s) ⟨clients, readList, .idle⟩ es
      ⟨clients.execute callback.run, readList, .idle⟩ := by
  have hdrain : Step n b shot callback s ⟨clients, readList, .idle⟩ []
      ⟨{ clients with packetsToRead := [] }, readList,
        if clients.packetsToRead.isEmpty then .idle else .drained clients.packetsToRead⟩ := .drain rfl
  unfold ClientInfos.execute
  by_cases hr : clients.packetsToRead.isEmpty = true
  · rw [if_pos hr]
    rw [if_pos hr, ← List.isEmpty_iff.mp hr] at hdrain
    exact ⟨_, Run.start.next hdrain⟩
  rw [if_neg hr] at hdrain ⊢
  have henter : Step n b shot callback s
      ⟨{ clients with packetsToRead := [] }, readList, .drained clients.packetsToRead⟩ []
      ⟨{ clients with packetsToRead := [] }, readList,
        if clients.clientInfos.entries.isEmpty then .idle
        else .calling [] clients.packetsToRead⟩ := .enter rfl
  by_cases hc : clients.clientInfos.entries.isEmpty = true
  · rw [if_pos hc] at henter ⊢
    exact ⟨_, (Run.start.next hdrain).next henter⟩
  · rw [if_neg hc] at henter ⊢
    obtain ⟨es, hes⟩ := calls_run (n := n) (b := b) (s := s)
      { clients with packetsToRead := [] } readList [] clients.packetsToRead
    exact ⟨_, (((Run.start.next hdrain).next henter).append hes).next (.append rfl)⟩

/-- **The turns of the polling thread in a row are `onReadPoll`.** -/
theorem onReadPoll_run {clients : ClientInfos} {buffer : Buffer n} {events : List EpollEvent}
    {v : Polled n} (h : onReadPoll b shot clients buffer events = .ok v) (executing : Executing) :
    ∃ es, Run (Step n b shot callback s) ⟨clients, [], executing⟩ es ⟨v.clients, [], executing⟩ := by
  rcases hfold : (events.take clients.pollInEvents).foldlM (pollEvent b shot)
    (⟨clients, buffer, [], [], [], []⟩ : Polled n) with e | v'
  · rw [onReadPoll, hfold] at h
    cases h
  · rw [onReadPoll, hfold] at h
    cases h
    have hturns : ∃ es, Run (Step n b shot callback s) ⟨clients, [], executing⟩ es
        ⟨v'.clients, v'.readList, executing⟩ := by
      refine foldlM_ok (R := fun v v' : Polled n => ∃ es,
          Run (Step n b shot callback s) ⟨v.clients, v.readList, executing⟩ es
            ⟨v'.clients, v'.readList, executing⟩)
        (fun v => ⟨[], .start⟩) ?_
        (fun v event v' hv => ⟨_, Run.start.next (Step.turn event rfl rfl hv)⟩) hfold
      intro v v' v'' h h'
      obtain ⟨es, hes⟩ := h
      obtain ⟨es', hes'⟩ := h'
      exact ⟨es ++ es', hes.append hes'⟩
    obtain ⟨es, hes⟩ := hturns
    exact ⟨_, hes.next .handOn⟩

end Whole

end Pipeline

end PollServer
