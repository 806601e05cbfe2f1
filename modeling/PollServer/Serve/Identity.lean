import PollServer.Serve.Setup

/-! What the operations at a protocol do to the client of one connection: the identity that
the server has of it, and the packets that wait for it. -/

namespace PollServer

open Lib StopM NetworkPacket ClientInfos

/-- The identity that a client has after the packets `ps`. -/
def named (clientId : List Byte) (ps : List NetworkPacket) : List Byte :=
  ps.foldl (fun clientId p => if p.command = Commands.Setup.clientID then p.data else clientId)
    clientId

theorem named_append (clientId : List Byte) (ps qs : List NetworkPacket) :
    named clientId (ps ++ qs) = named (named clientId ps) qs := List.foldl_append

theorem named_map (clientId : List Byte) (ps : List NetworkPacket) (socket : ℤ) :
    named clientId (ps.map fun q => { q with socket := socket }) = named clientId ps :=
  List.foldl_map

/-- No packet of `ps` gives an identity. -/
def Nameless (ps : List NetworkPacket) : Prop := ∀ p ∈ ps, p.command ≠ Commands.Setup.clientID

theorem clientId_dispatch (socket : ℤ) (p : NetworkPacket) (ses : Session) :
    (ses.dispatch socket p).clientInfo.clientId = named ses.clientInfo.clientId [p] := by
  have hne : ∀ command : List Byte, command ≠ Commands.Setup.clientID → p.command = command →
      named ses.clientInfo.clientId [p] = ses.clientInfo.clientId := by
    rintro command hc rfl
    exact if_neg hc
  simp only [Session.dispatch, Session.react]
  split_ifs with h1 h2 h3 h4
  · exact (hne _ (by decide) h1).symm
  · exact (hne _ (by decide) h2).symm
  · exact (if_pos h3).symm
  · exact (hne _ (by decide) h4).symm
  · exact (hne _ h3 rfl).symm

/-- Whatever a read does to its session, the client has the identity of the packets that
were dispatched. -/
theorem named_stepwise (socket : ℤ) :
    Session.Stepwise socket fun ses ses' => ∃ ps, ses'.dispatched = ses.dispatched ++ ps ∧
      ses'.clientInfo.clientId = named ses.clientInfo.clientId ps where
  refl _ := ⟨[], (List.append_nil _).symm, rfl⟩
  trans _ _ _ := fun ⟨ps, hd, hc⟩ ⟨qs, hd', hc'⟩ =>
    ⟨ps ++ qs, by rw [hd', hd, List.append_assoc], by rw [hc', hc, named_append]⟩
  count _ := ⟨[], (List.append_nil _).symm, rfl⟩
  decoded _ _ := ⟨[], (List.append_nil _).symm, rfl⟩
  close _ := ⟨[], (List.append_nil _).symm, rfl⟩
  dispatch p ses _ := ⟨[p], Session.dispatched_dispatch socket p ses, clientId_dispatch socket p ses⟩

theorem nameless_of_subset {c : ClientLearnProtocol} {ps : List NetworkPacket}
    (h : ∀ p ∈ ps, p ∈ [c.ackOf]) : Nameless ps := by
  intro p hp
  rw [List.mem_singleton.mp (h p hp)]
  exact show Commands.Setup.ack ≠ Commands.Setup.clientID by decide

/-- What a client has sent of a set up names it as soon as there is an identity in it, and
then nothing is left to send. -/
theorem Stage.named_packets {n : ℕ} {stage : Stage n} {done rest : List NetworkPacket}
    (h : stage.packets = done ++ rest) (hn : ¬Nameless done) :
    rest = [] ∧ named [] done = stage.calling.self.clientId := by
  have hmem : ∀ p ∈ done, p ∈ stage.packets := by
    intro p hp
    rw [h]
    exact List.mem_append_left rest hp
  have hboth : ∀ c : ClientLearnProtocol, [c.ackOf, c.identityOf] = done ++ rest →
      rest = [] ∧ named [] done = c.clientId := by
    intro c hc
    rcases done with _ | ⟨p, _ | ⟨q, done⟩⟩
    · exact absurd (List.forall_mem_nil _) hn
    · refine absurd (nameless_of_subset (c := c) fun p' hp' => ?_) hn
      rwa [(List.cons.inj hc).1]
    · obtain ⟨-, hc⟩ := List.cons.inj hc
      obtain ⟨hq, hc⟩ := List.cons.inj hc
      obtain ⟨rfl, rfl⟩ := List.append_eq_nil_iff.mp hc.symm
      exact ⟨rfl, by rw [← hq]; rfl⟩
  cases stage with
  | fresh s => exact absurd (fun p hp => absurd (hmem p hp) List.not_mem_nil) hn
  | awaitSyn result s => exact absurd (nameless_of_subset hmem) hn
  | synced s => exact absurd (nameless_of_subset hmem) hn
  | awaitJoin result s => exact hboth s.self h
  | returned r s => exact hboth s.self h

section Protocols

variable {n : ℕ} (b : Build) (fd : ℤ)

/-- No packet of the connection waits to be executed, and none that waits to be written has
the byte of a `JOIN`. -/
structure Polled.Quiet (v : Polled n) : Prop where
  reads : ∀ p ∈ v.clients.packetsToRead ++ v.readList, p.socket ≠ fd
  writes : ∀ p ∈ v.clients.packetsToWrite, p.socket = fd → joinByte ∉ p.marshall b.order

def Polled.Known (clientId : List Byte) (v : Polled n) : Prop :=
  ∀ c ∈ v.clients.clientInfos.entries, c.socket = fd → c.clientId = clientId

/-- What is done at a protocol without a read from the connection. -/
structure Polled.Tame (v v' : Polled n) : Prop where
  quiet : v.Quiet b fd → v'.Quiet b fd
  known : ∀ clientId, v.Known fd clientId → v'.Known fd clientId
  mem : fd ∈ v'.clients.clientInfos → fd ∈ v.clients.clientInfos

variable {b fd} {v v' : Polled n}

namespace Polled.Tame

theorem of_packets (hc : v'.clients.clientInfos = v.clients.clientInfos)
    (hr : ∀ p ∈ v'.clients.packetsToRead ++ v'.readList, p.socket = fd →
      p ∈ v.clients.packetsToRead ++ v.readList)
    (hw : v.Quiet b fd → ∀ p ∈ v'.clients.packetsToWrite, p.socket = fd →
      p ∈ v.clients.packetsToWrite ∨ joinByte ∉ p.marshall b.order) : Tame b fd v v' where
  quiet h := by
    refine ⟨fun p hp hs => h.reads p (hr p hp hs) hs, fun p hp hs => ?_⟩
    rcases hw h p hp hs with hold | hnew
    · exact h.writes p hold hs
    · exact hnew
  known clientId h := by rwa [Known, hc]
  mem h := by rwa [hc] at h

theorem of_eq (hc : v'.clients = v.clients) (hr : v'.readList = v.readList) : Tame b fd v v' :=
  of_packets (by rw [hc]) (by rw [hc, hr]; exact fun _ hp _ => hp)
    (by rw [hc]; exact fun _ _ hp _ => Or.inl hp)

/-- A change of the clients that leaves the connection's its identity, or takes it away. -/
theorem of_clients (cs : ClientInfoMap) (hc : ∀ c' ∈ cs.entries, c'.socket = fd →
      ∃ c ∈ v.clients.clientInfos.entries, c.socket = fd ∧ c.clientId = c'.clientId) :
    Tame b fd v { v with clients := { v.clients with clientInfos := cs } } where
  quiet h := ⟨h.reads, h.writes⟩
  known clientId h := by
    intro c' hc' hs
    obtain ⟨c, hmem, hsocket, hid⟩ := hc c' hc' hs
    rw [← hid]
    exact h c hmem hsocket
  mem h := by
    obtain ⟨c', hc', hs⟩ := (Keyed.mem_iff _).mp h
    obtain ⟨c, hmem, hsocket, -⟩ := hc c' hc' hs
    rw [← hsocket]
    exact Keyed.mem_of_entry _ hmem

theorem trans {v'' : Polled n} (h : Tame b fd v v') (h' : Tame b fd v' v'') : Tame b fd v v'' :=
  ⟨h'.quiet ∘ h.quiet, fun clientId hk => h'.known clientId (h.known clientId hk),
    h.mem ∘ h'.mem⟩

end Polled.Tame

theorem update_tame (v : Polled n) (buffer : Buffer n) :
    Polled.Tame b fd v ⟨v.clients.update, buffer, [], [], [], []⟩ := by
  have hclients : v.clients.update.clientInfos = v.clients.clientInfos := by
    unfold update
    split_ifs <;> rfl
  have hreads : v.clients.update.packetsToRead = v.clients.packetsToRead := by
    unfold update
    split_ifs <;> rfl
  have hwrites : v.clients.update.packetsToWrite = v.clients.packetsToWrite := by
    unfold update
    split_ifs <;> rfl
  refine .of_packets hclients (fun p hp _ => ?_) fun _ p hp _ =>
    Or.inl (by rwa [← hwrites])
  rw [List.append_nil, hreads] at hp
  exact List.mem_append_left _ hp

/-- A turn that does not read from the connection. -/
theorem pollEvent_tame {shot : Shot} {event : EpollEvent} (h : pollEvent b shot v event = .ok v')
    (hr : readFrom b fd v event = none) : Polled.Tame b fd v v' := by
  rcases pollEvent_cases h with ⟨-, hclients, hreads, -⟩ | ⟨c, hc, hread⟩
  · exact .of_eq hclients hreads
  have hfind := (checkedClient_eq_some (Option.filter_eq_some_iff.mp hc).1).2.2.1
  have hne : event.fd ≠ fd := by
    rintro rfl
    rw [hr] at hc
    cases hc
  obtain ⟨result, s, hrun, hclients, hreads, -⟩ := readClient_ok hread
  obtain ⟨ps, hps⟩ := readForSingleSocket_hears b event.fd shot (readStart v event c)
  rw [hrun] at hps
  have hsocket : s.session.clientInfo.socket = event.fd :=
    hps.socket.trans ((Keyed.find_eq_some _).mp hfind).2
  refine Polled.Tame.trans (.of_clients _ fun c' hc' hs => ?_)
    (.of_packets (by rw [hclients]) (fun p hp hs => ?_) fun _ p hp hs => ?_)
  · rcases (Keyed.mem_entries_put _).mp hc' with ⟨hmem, -⟩ | ⟨rfl, -⟩
    · exact ⟨c', hmem, hs, rfl⟩
    · exact absurd (hsocket.symm.trans hs) hne
  · rw [hclients, hreads, hps.readList, ← List.append_assoc] at hp
    rcases List.mem_append.mp hp with hp | hp
    · exact hp
    · exact absurd ((hps.sockets p (List.mem_of_mem_filter hp)).symm.trans hs) hne
  · rw [hclients, hps.packetsToWrite] at hp
    rcases List.mem_append.mp hp with hp | hp
    · exact Or.inl hp
    · obtain ⟨q, hq, hanswer⟩ := List.mem_filterMap.mp hp
      rw [Net.answer_socket hanswer, hps.sockets q hq] at hs
      exact absurd hs hne

theorem handOn_tame (v : Polled n) : Polled.Tame b fd v { v with
    clients := { v.clients with packetsToRead := v.clients.packetsToRead ++ v.readList }
    readList := [] } := by
  refine .of_packets rfl (fun p hp _ => ?_) fun _ p hp _ => Or.inl hp
  rwa [List.append_nil] at hp

theorem respond_socket (cs : ClientInfos) (callback : Callback) (p : NetworkPacket) :
    (cs.respond callback.run p).socket = p.socket := by
  unfold respond
  split
  · exact callback.socket_run _ _
  · rfl

theorem execute_tame (v : Polled n) (callback : Callback) :
    Polled.Tame b fd v { v with clients := v.clients.execute callback.run } := by
  unfold execute
  split_ifs
  · exact .of_eq rfl rfl
  · refine .of_packets rfl (fun p hp _ => List.mem_append_right _ hp) fun _ p hp _ => Or.inl hp
  · refine .of_packets rfl (fun p hp _ => List.mem_append_right _ hp) fun hq p hp hs => ?_
    rcases List.mem_append.mp hp with hp | hp
    · exact Or.inl hp
    · obtain ⟨q, hq', rfl⟩ := List.mem_map.mp hp
      rw [respond_socket] at hs
      exact absurd hs (hq.reads q (List.mem_append_left _ hq'))

def ClientInfo.Same (c c' : ClientInfo) : Prop := c'.socket = c.socket ∧ c'.clientId = c.clientId

theorem filterSockets_keeps (sockets : List ℤ) (infos : ClientInfoMap) :
    Keyed.Changed ClientInfo.Same infos (filterSockets sockets infos).2.2 ∧
      ∀ p ∈ (filterSockets sockets infos).2.1, ∃ socket, p = heartBeatTo socket := by
  induction sockets generalizing infos with
  | nil => exact ⟨.refl (fun _ => ⟨rfl, rfl⟩) infos, by simp [filterSockets]⟩
  | cons socket sockets ih =>
    cases h : infos.find socket with
    | none =>
      simp only [filterSockets, h]
      exact ih infos
    | some info =>
      have hput : Keyed.Changed ClientInfo.Same infos (infos.put info.terminateThisCycleOrNext.2) := by
        have hsame : info.Same info.terminateThisCycleOrNext.2 := by
          unfold ClientInfo.terminateThisCycleOrNext
          split_ifs <;> exact ⟨rfl, rfl⟩
        refine Keyed.changed_put _ (fun c hc hs => ?_) fun _ _ _ => ⟨rfl, rfl⟩
        have hinfo := Keyed.mem_of_find _ h
        obtain ⟨hmem, -⟩ := (Keyed.find_eq_some _).mp h
        obtain rfl := Keyed.eq_of_key _ hc hmem (hs.trans hsame.1)
        exact hsame
      obtain ⟨hinfos, hwarnings⟩ := ih (infos.put info.terminateThisCycleOrNext.2)
      have hall := hput.comp hinfos (T := ClientInfo.Same) fun _ _ _ h h' =>
        ⟨h'.1.trans h.1, h'.2.trans h.2⟩
      simp only [filterSockets, h]
      split_ifs
      · exact ⟨hall, hwarnings⟩
      · refine ⟨hall, fun p hp => ?_⟩
        rcases List.mem_cons.mp hp with rfl | hp
        · exact ⟨socket, rfl⟩
        · exact hwarnings p hp

theorem joinByte_heartBeat (order : ByteOrder) (socket : ℤ) :
    joinByte ∉ (heartBeatTo socket).marshall order := by
  change joinByte ∉ (heartBeatTo 0).marshall order
  cases order <;> decide

theorem filterSocketsToTerminate_tame (v : Polled n) (sockets : List ℤ) : Polled.Tame b fd v
    { v with clients := (v.clients.filterSocketsToTerminate sockets).2 } := by
  obtain ⟨hinfos, hwarnings⟩ := filterSockets_keeps sockets v.clients.clientInfos
  refine Polled.Tame.trans (.of_clients _ fun c' hc' hs => ?_)
    (.of_packets rfl (fun p hp _ => hp) fun _ p hp _ => ?_)
  · obtain ⟨c, hc, hsocket, hid⟩ := hinfos.back hc'
    exact ⟨c, hc, hsocket.symm.trans hs, hid.symm⟩
  · rcases List.mem_append.mp hp with hp | hp
    · exact Or.inl hp
    · obtain ⟨socket, rfl⟩ := hwarnings p hp
      exact Or.inr (joinByte_heartBeat b.order socket)

theorem write_tame (v : Polled n) (sends : List (List SendEvent)) :
    Polled.Tame b fd v { v with clients := (v.clients.write b sends).2.2 } :=
  .of_packets rfl (fun _ hp _ => hp) fun _ _ hp _ => absurd hp List.not_mem_nil

theorem sublist_tame (v : Polled n) {cs : ClientInfoMap}
    (h : ∀ c ∈ cs.entries, c ∈ v.clients.clientInfos.entries) :
    Polled.Tame b fd v { v with clients := { v.clients with clientInfos := cs } } :=
  .of_clients _ fun c hc hs => ⟨c, h c hc, hs, rfl⟩

theorem insert_tame (v : Polled n) {c : ClientInfo} (h : c.socket ≠ fd) :
    Polled.Tame b fd v { v with clients := v.clients.insert c } := by
  refine Polled.Tame.trans (.of_clients (v.clients.clientInfos.insert c) fun c' hc' hs => ?_)
    (.of_packets rfl (fun _ hp _ => hp) fun _ _ hp _ => Or.inl hp)
  rcases Keyed.mem_entries_insert _ hc' with rfl | hc'
  · exact absurd hs h
  · exact ⟨c', hc', hs, rfl⟩

/-- What is done at a protocol by a read from the connection that takes the packets `taken`. -/
structure Polled.Fed (b : Build) (fd : ℤ) (taken : List NetworkPacket) (v v' : Polled n) : Prop where
  quiet : v.Quiet b fd → (∀ p ∈ taken, p.command = Commands.Setup.ack) → v'.Quiet b fd
  known : ∀ clientId, v.Known fd clientId → v'.Known fd (named clientId taken)
  mem : fd ∈ v'.clients.clientInfos → fd ∈ v.clients.clientInfos

theorem joinByte_syn (order : ByteOrder) (socket : ℤ) :
    joinByte ∉ marshall order ⟨socket, Commands.Setup.syn, []⟩ := by
  change joinByte ∉ marshall order ⟨0, Commands.Setup.syn, []⟩
  cases order <;> decide

/-- **A turn that reads from the connection** takes packets from the front of the stream. -/
theorem pollEvent_fed {shot : Shot} {event : EpollEvent} {c : ClientInfo}
    (h : pollEvent b shot v event = .ok v') (hr : readFrom b fd v event = some c)
    (hp : InPieces b shot fd (readStart v event c)) {ps : List NetworkPacket}
    (hps : ∀ q ∈ ps, Framed q) (hu : arrived event.recv <+: wire b.order ps) :
    ∃ s taken rest mid, (readForSingleSocket b shot event.fd (readStart v event c)).2 = s ∧
      ps = taken ++ rest ∧
      arrived event.recv = wire b.order taken ++ (mid ++ arrived s.inb.events) ∧
      (mid = [] ∨ s.session.shutdown = true) ∧ Polled.Fed b fd taken v v' := by
  obtain ⟨rfl, -, hfind, -⟩ := checkedClient_eq_some (Option.filter_eq_some_iff.mp hr).1
  rcases pollEvent_cases h with ⟨hnone, -⟩ | ⟨c', hc', hread⟩
  · rw [hr] at hnone
    cases hnone
  rw [hr] at hc'
  cases hc'
  obtain ⟨result, s, hrun, hclients, hreads, -⟩ := readClient_ok hread
  obtain ⟨taken, rest, mid, htook⟩ := readForSingleSocket_took hp hrun hps hu
  obtain ⟨heard, hheard⟩ := readForSingleSocket_hears b event.fd shot (readStart v event c)
  obtain ⟨dispatched, hdispatched, hid⟩ :=
    (named_stepwise event.fd).readForSingleSocket b shot (readStart v event c)
  rw [hrun] at hheard hdispatched hid
  have hsame : heard = taken.map fun q => { q with socket := event.fd } :=
    List.append_cancel_left (hheard.dispatched.symm.trans htook.dispatched)
  have hsame' : dispatched = taken.map fun q => { q with socket := event.fd } :=
    List.append_cancel_left (hdispatched.symm.trans htook.dispatched)
  rw [hsame', named_map] at hid
  refine ⟨s, taken, rest, mid, by rw [hrun], htook.packets, htook.stream, htook.shut, ?_⟩
  refine ⟨fun hq hack => ⟨fun p hp => ?_, fun p hp hs => ?_⟩, fun clientId hk c' hc' hs => ?_,
    fun hmem => ?_⟩
  · rw [hclients, hreads, hheard.readList, ← List.append_assoc] at hp
    rcases List.mem_append.mp hp with hp | hp
    · exact hq.reads p hp
    · obtain ⟨hmem, hsend⟩ := List.mem_filter.mp hp
      rw [hsame] at hmem
      obtain ⟨q, hq', rfl⟩ := List.mem_map.mp hmem
      have hcommand : q.command = Commands.send := of_decide_eq_true hsend
      rw [hack q hq'] at hcommand
      exact absurd hcommand (by decide)
  · rw [hclients, hheard.packetsToWrite] at hp
    rcases List.mem_append.mp hp with hp | hp
    · exact hq.writes p hp hs
    · obtain ⟨p', hp', hanswer⟩ := List.mem_filterMap.mp hp
      rw [hsame] at hp'
      obtain ⟨q, hq', rfl⟩ := List.mem_map.mp hp'
      rw [answer, if_pos (hack q hq')] at hanswer
      cases hanswer
      exact joinByte_syn b.order _
  · have hsocket : s.session.clientInfo.socket = event.fd :=
      hheard.socket.trans ((Keyed.find_eq_some _).mp hfind).2
    rw [hclients] at hc'
    rcases (Keyed.mem_entries_put _).mp hc' with ⟨-, hne⟩ | ⟨rfl, -⟩
    · exact absurd (hs.trans hsocket.symm) hne
    · obtain ⟨hmem, hfd⟩ := (Keyed.find_eq_some _).mp hfind
      rw [hid, ← hk c hmem hfd]
      rfl
  · exact Keyed.mem_of_find _ hfind

end Protocols

end PollServer
