import PollServer.Serve.Identity

/-! The handshake of a client and the server. What the server has acted on is what its client
has sent first, and the first byte of a `JOIN` is nowhere on the way to the client before the
server has the client's identity. -/

namespace PollServer

open Lib StopM NetworkPacket ClientInfos

namespace Handshake

variable {k m n : ℕ}

/-- The connection has one client at most, wherever it is. -/
structure Sole (fd : ℤ) (w : Handshake k m n) : Prop where
  apart : ∀ i j, fd ∈ (w.clients i).clientInfos → fd ∈ (w.clients j).clientInfos → i = j
  away : ∀ i, fd ∈ (w.clients i).clientInfos → ∀ c ∈ w.transit, c.socket ≠ fd
  once : w.transit.countP (·.socket = fd) ≤ 1

/-- Before the client goes on: a connection that was accepted on a descriptor that no packet
names. -/
structure Begins (fd : ℤ) (s0 : Calling m) (w : Handshake k m n) : Prop where
  descriptor : 0 ≤ fd
  stage : w.stage = .fresh s0
  acts : s0.acts = []
  handed : s0.handed = []
  c2s : w.c2s = []
  s2c : w.s2c = []
  shut : w.shut = false
  gone : w.gone = false
  sole : w.Sole fd
  registered : ∀ i, (w.protocols i).Known fd []
  transit : ∀ c ∈ w.transit, c.socket = fd → c.clientId = []
  packets : ∀ i, ∀ p ∈ (w.clients i).packetsToRead ++ (w.protocols i).readList ++
    (w.clients i).packetsToWrite, p.socket ≠ fd

/-- **The condition under which the parties agree.** The client's sends take their packets
whole, and the server's reads of the connection go on from whole pieces of the stream. -/
def Orderly (b : Build) (shot : Shot) (fd : ℤ) (w : Handshake k m n) : HandshakeOp k n → Prop
  | .client => ∀ p ∈ w.stage.outgoing, SentWhole b p (w.stage.calling.sends.headD [])
  | .turn i event => w.gone = false → ∀ c ∈ readFrom b fd (w.protocols i) event,
    InPieces b shot fd (readStart (w.protocols i) event c)
  | _ => True

/-- Of what the client has sent, `done` was acted on and `rest` is on its way. -/
structure Paired (b : Build) (fd : ℤ) (done rest : List NetworkPacket) (w : Handshake k m n) :
    Prop where
  packets : w.stage.packets = done ++ rest
  c2s : w.c2s = wire b.order rest
  sole : w.Sole fd
  known : ∀ i, (w.protocols i).Known fd (named [] done)
  transit : ∀ c ∈ w.transit, c.socket = fd → c.clientId = named [] done
  unjoined : Nameless done →
    w.stage.running = true ∧ joinByte ∉ w.s2c ∧ ∀ i, (w.protocols i).Quiet b fd

/-- The server has shut the connection down, and the client will not be let in any more. -/
structure Lost (w : Handshake k m n) : Prop where
  shut : w.shut = true
  running : w.stage.running = true
  unjoined : joinByte ∉ w.s2c

/-- The invariant of the two parties. -/
inductive Agrees (b : Build) (fd : ℤ) (w : Handshake k m n) : Prop where
  | gone (h : w.gone = true)
  | failed (h : w.stage.failed = true)
  | lost (h : w.Lost)
  | paired (done rest : List NetworkPacket) (h : w.Paired b fd done rest)

section Places

variable {fd : ℤ} {w : Handshake k m n} {i : Fin k} {v : Polled n}

@[simp] theorem protocols_setPolled_same : (w.setPolled i v).protocols i = v :=
  Function.update_self _ _ _

theorem protocols_setPolled_other {j : Fin k} (h : j ≠ i) :
    (w.setPolled i v).protocols j = w.protocols j := Function.update_of_ne h _ _

theorem forall_setPolled {P : Polled n → Prop} (h : ∀ j, P (w.protocols j)) (hv : P v) (j : Fin k) :
    P ((w.setPolled i v).protocols j) := by
  by_cases hj : j = i
  · rw [hj, protocols_setPolled_same]
    exact hv
  · rw [protocols_setPolled_other hj]
    exact h j

theorem mem_setPolled (h : fd ∈ v.clients.clientInfos → fd ∈ (w.clients i).clientInfos) {j : Fin k}
    (hj : fd ∈ ((w.setPolled i v).clients j).clientInfos) : fd ∈ (w.clients j).clientInfos := by
  by_cases he : j = i
  · subst he
    rw [clients, protocols_setPolled_same] at hj
    exact h hj
  · rwa [clients, protocols_setPolled_other he] at hj

theorem Sole.setPolled (h : w.Sole fd)
    (hv : fd ∈ v.clients.clientInfos → fd ∈ (w.clients i).clientInfos) :
    (w.setPolled i v).Sole fd where
  apart j j' hj hj' := h.apart j j' (mem_setPolled hv hj) (mem_setPolled hv hj')
  away j hj := h.away j (mem_setPolled hv hj)
  once := h.once

end Places

section Steps

variable {b : Build} {fd : ℤ} {w : Handshake k m n} {i : Fin k} {v : Polled n}
  {done rest : List NetworkPacket}

theorem Paired.setPolled (h : w.Paired b fd done rest) (hv : Polled.Tame b fd (w.protocols i) v) :
    (w.setPolled i v).Paired b fd done rest where
  packets := h.packets
  c2s := h.c2s
  sole := h.sole.setPolled hv.mem
  known := forall_setPolled h.known (hv.known _ (h.known i))
  transit := h.transit
  unjoined hn := by
    obtain ⟨hrun, hjoin, hquiet⟩ := h.unjoined hn
    exact ⟨hrun, hjoin, forall_setPolled hquiet (hv.quiet (hquiet i))⟩

theorem Paired.of_same {w' : Handshake k m n} (h : w.Paired b fd done rest)
    (hprotocols : w'.protocols = w.protocols) (htransit : w'.transit = w.transit)
    (hstage : w'.stage = w.stage) (hc2s : w'.c2s = w.c2s)
    (hs2c : Nameless done → joinByte ∉ w'.s2c) : w'.Paired b fd done rest := by
  obtain ⟨protocols, transit, stage, c2s, s2c, shut, gone⟩ := w'
  subst hprotocols htransit hstage hc2s
  refine ⟨h.packets, h.c2s, ⟨h.sole.apart, h.sole.away, h.sole.once⟩, h.known, h.transit, fun hn => ?_⟩
  obtain ⟨hrun, -, hquiet⟩ := h.unjoined hn
  exact ⟨hrun, hs2c hn, hquiet⟩

theorem Agrees.keep {w' : Handshake k m n} (h : w.Agrees b fd)
    (hgone : w.gone = true → w'.gone = true) (hstage : w'.stage = w.stage) (hshut : w.shut = true → w'.shut = true ∧ w'.s2c = w.s2c)
    (hpaired : ∀ done rest, w.Paired b fd done rest → w'.Agrees b fd) : w'.Agrees b fd := by
  cases h with
  | gone h => exact .gone (hgone h)
  | failed h => exact .failed (by rwa [hstage])
  | lost h =>
    obtain ⟨hshut', hs2c⟩ := hshut h.shut
    exact .lost ⟨hshut', by rw [hstage]; exact h.running, by rw [hs2c]; exact h.unjoined⟩
  | paired done rest h => exact hpaired done rest h

theorem Agrees.setPolled (h : w.Agrees b fd) (hv : Polled.Tame b fd (w.protocols i) v) :
    (w.setPolled i v).Agrees b fd :=
  h.keep (fun hg => hg) rfl (fun hs => ⟨hs, rfl⟩) fun done rest h => .paired done rest (h.setPolled hv)

theorem client_ok {w' : Handshake k m n} (h : w.client b = some w') :
    ∃ took, w' = { w with
        stage := w.stage.next b
        c2s := w.c2s ++ (w.stage.next b).calling.handed.drop w.stage.calling.handed.length
        s2c := w.s2c.drop took } ∧
      ∀ bytes, arrived w.stage.calling.wire.inb.events =
        bytes ++ arrived (w.stage.next b).calling.wire.inb.events → bytes <+: w.s2c := by
  unfold client at h
  dsimp only at h
  split_ifs at h with hstart
  cases h
  refine ⟨_, rfl, fun bytes hbytes => ?_⟩
  rwa [hbytes, List.length_append, Nat.add_sub_cancel, List.take_left] at hstart

theorem next_running (hrun : w.stage.running = true) (hjoin : joinByte ∉ w.s2c)
    (htook : ∀ bytes, arrived w.stage.calling.wire.inb.events =
      bytes ++ arrived (w.stage.next b).calling.wire.inb.events → bytes <+: w.s2c)
    (hfail : (w.stage.next b).failed = false) : (w.stage.next b).running = true := by
  by_contra hnext
  obtain ⟨bytes, hbytes, hmem⟩ := Stage.next_joined hrun (by simpa using hnext) hfail
  exact hjoin ((htook bytes hbytes).subset hmem)

theorem Agrees.client {s0 : Calling m} {w' : Handshake k m n} (h : w.Agrees b fd)
    (hs : Stage.From b s0 w.stage) (hid : commandSize + s0.self.clientId.length < 2 ^ 16)
    (hw : ∀ p ∈ w.stage.outgoing, SentWhole b p (w.stage.calling.sends.headD []))
    (he : w.client b = some w') : w'.Agrees b fd := by
  obtain ⟨took, rfl, htook⟩ := client_ok he
  cases hfail : (w.stage.next b).failed with
  | true => exact .failed hfail
  | false =>
  cases h with
  | gone h => exact .gone h
  | failed h =>
    rw [Stage.next_of_failed h, h] at hfail
    cases hfail
  | lost h =>
    exact .lost ⟨h.shut, next_running h.running h.unjoined htook hfail,
      fun hj => h.unjoined (List.mem_of_mem_drop hj)⟩
  | paired done rest h =>
    rcases hs.logged with hfailed | hlog
    · rw [Stage.next_of_failed hfailed, hfailed] at hfail
      cases hfail
    have hframed := hlog.framed hid
    rcases Stage.next_advanced (fun p hp => hframed p
      (List.mem_append_right _ (Option.mem_toList.mpr hp))) hw with hfail' | hadv
    · exact .failed hfail'
    refine .paired done (rest ++ w.stage.outgoing.toList)
      ⟨?_, ?_, ⟨h.sole.apart, h.sole.away, h.sole.once⟩, h.known, h.transit, fun hn => ?_⟩
    · rw [hadv.packets, h.packets, List.append_assoc]
    · dsimp only
      rw [hadv.handed, List.drop_left, h.c2s, Stage.wire_append]
    · obtain ⟨hrun, hjoin, hquiet⟩ := h.unjoined hn
      exact ⟨next_running hrun hjoin htook hfail, fun hj => hjoin (List.mem_of_mem_drop hj), hquiet⟩

/-- With the first `done` packets acted on, and the next ones taken by a read of the client
at `i`. -/
theorem Paired.fed {taken : List NetworkPacket} (h : w.Paired b fd done (taken ++ rest))
    (hmem : fd ∈ (w.clients i).clientInfos) (hv : Polled.Fed b fd taken (w.protocols i) v)
    (shut : Bool) : Paired b fd (done ++ taken) rest
      { w.setPolled i v with c2s := wire b.order rest, shut := shut } where
  packets := by rw [List.append_assoc]; exact h.packets
  c2s := rfl
  sole := ⟨(h.sole.setPolled hv.mem).apart, (h.sole.setPolled hv.mem).away, h.sole.once⟩
  known j := by
    by_cases hj : j = i
    · subst hj
      rw [named_append]
      change Polled.Known fd _ ((w.setPolled j v).protocols j)
      rw [protocols_setPolled_same]
      exact hv.known _ (h.known j)
    · intro c hc hs
      change c ∈ ((w.setPolled i v).protocols j).clients.clientInfos.entries at hc
      rw [protocols_setPolled_other hj] at hc
      refine absurd (h.sole.apart j i ?_ hmem) hj
      rw [← hs]
      exact Keyed.mem_of_entry _ hc
  transit c hc hs := absurd hs (h.sole.away i hmem c hc)
  unjoined hn := by
    obtain ⟨hrun, hjoin, hquiet⟩ := h.unjoined fun p hp => hn p (List.mem_append_left _ hp)
    refine ⟨hrun, hjoin, forall_setPolled hquiet (hv.quiet (hquiet i) fun p hp => ?_)⟩
    have hpackets : p ∈ w.stage.packets := by
      rw [h.packets]
      exact List.mem_append_right _ (List.mem_append_left _ hp)
    exact (Stage.command_packets hpackets).resolve_right (hn p (List.mem_append_right _ hp))

theorem readEnd_some {shot : Shot} {event : EpollEvent} {s : ReadState n}
    (h : w.readEnd b shot fd i event = some s) : w.gone = false ∧ ∃ c,
      readFrom b fd (w.protocols i) event = some c ∧
        (readForSingleSocket b shot event.fd (readStart (w.protocols i) event c)).2 = s := by
  unfold readEnd at h
  split_ifs at h with hg
  exact ⟨by simpa using hg, Option.map_eq_some_iff.mp h⟩

/-- A read of the connection acts on what the client has sent next, or it shuts down. -/
theorem Paired.read {s0 : Calling m} {shot : Shot} {event : EpollEvent} {c : ClientInfo}
    (h : w.Paired b fd done rest) (hlog : Stage.Logged b s0 w.stage)
    (hid : commandSize + s0.self.clientId.length < 2 ^ 16)
    (hpoll : pollEvent b shot (w.protocols i) event = .ok v)
    (hread : readFrom b fd (w.protocols i) event = some c)
    (hp : InPieces b shot fd (readStart (w.protocols i) event c))
    (hstart : arrived event.recv <+: w.c2s) {s : ReadState n}
    (hs : (readForSingleSocket b shot event.fd (readStart (w.protocols i) event c)).2 = s) :
    Agrees b fd { w.setPolled i v with
      c2s := w.c2s.drop ((arrived event.recv).length - (arrived s.inb.events).length)
      shut := w.shut || s.session.shutdown } := by
  have hframed : ∀ q ∈ rest, Framed q := by
    intro q hq
    refine hlog.framed hid q (List.mem_append_left _ ?_)
    rw [h.packets]
    exact List.mem_append_right _ hq
  have hmem : fd ∈ (w.clients i).clientInfos := by
    obtain ⟨rfl, -, hfind, -⟩ := checkedClient_eq_some (Option.filter_eq_some_iff.mp hread).1
    exact Keyed.mem_of_find _ hfind
  rw [h.c2s] at hstart
  obtain ⟨s1, taken, rest', mid, hs1, rfl, hstream, hshut, hfed⟩ :=
    pollEvent_fed hpoll hread hp hframed hstart
  obtain rfl : s1 = s := hs1.symm.trans hs
  rw [hstream, Stage.wire_append] at hstart
  obtain ⟨-, hbehind⟩ := prefix_split hstart rfl
  by_cases hmid : mid = []
  · have hdrop : w.c2s.drop ((arrived event.recv).length - (arrived s1.inb.events).length) =
        wire b.order rest' := by
      rw [hstream, hmid, List.nil_append, List.length_append, Nat.add_sub_cancel, h.c2s,
        Stage.wire_append, List.drop_left]
    rw [hdrop]
    exact .paired _ _ (h.fed hmem hfed _)
  · -- something is left that the client has sent, so there was no identity yet
    have hrest : rest' ≠ [] := by
      rintro rfl
      exact hmid (List.append_eq_nil_iff.mp (List.prefix_nil.mp hbehind)).1
    have hn : Nameless (done ++ taken) := by
      by_contra hn
      exact hrest (Stage.named_packets (by rw [h.packets, List.append_assoc]) hn).1
    obtain ⟨hrun, hjoin, -⟩ := h.unjoined fun p hp => hn p (List.mem_append_left _ hp)
    exact .lost ⟨by simp [hshut.resolve_left hmid], hrun, hjoin⟩

theorem Agrees.turn {s0 : Calling m} {shot : Shot} {event : EpollEvent} {w' : Handshake k m n}
    (h : w.Agrees b fd) (hs : Stage.From b s0 w.stage)
    (hid : commandSize + s0.self.clientId.length < 2 ^ 16)
    (hp : w.gone = false → ∀ c ∈ readFrom b fd (w.protocols i) event,
      InPieces b shot fd (readStart (w.protocols i) event c))
    (he : w.turn b shot fd i event = some w') : w'.Agrees b fd := by
  unfold Handshake.turn at he
  rcases hpoll : pollEvent b shot (w.protocols i) event with stop | v
  · rw [hpoll] at he
    cases he
  rw [hpoll] at he
  dsimp only at he
  cases hend : w.readEnd b shot fd i event with
  | none =>
    rw [hend] at he
    cases he
    refine h.keep (fun hg => hg) rfl (fun hshut => ⟨hshut, rfl⟩) fun done rest h => ?_
    cases hg : w.gone with
    | true => exact .gone hg
    | false =>
      have hread : readFrom b fd (w.protocols i) event = none := by simpa [readEnd, hg] using hend
      exact .paired done rest (h.setPolled (pollEvent_tame hpoll hread))
  | some s =>
    rw [hend] at he
    dsimp only at he
    split_ifs at he with hstart
    cases he
    obtain ⟨hg, c, hread, hs'⟩ := readEnd_some hend
    refine h.keep (fun hg => hg) rfl (fun hshut => ⟨by simp [hshut], rfl⟩) fun done rest h => ?_
    rcases hs.logged with hfailed | hlog
    · exact .failed hfailed
    · exact h.read hlog hid hpoll hread (hp hg c hread) hstart hs'

/-- Nothing with the first byte of a `JOIN` is handed to the kernel. -/
theorem joinByte_handedTo {ps : List NetworkPacket} {sends : List (List SendEvent)}
    (h : ∀ p ∈ ps, p.socket = fd → joinByte ∉ p.marshall b.order) :
    joinByte ∉ handedTo b fd ps sends := by
  induction ps generalizing sends with
  | nil => exact List.not_mem_nil
  | cons p ps ih =>
    obtain ⟨hp, hps⟩ := List.forall_mem_cons.mp h
    rcases hsend : sendRaw b (p.marshall b.order) (sends.headD []) with stop | sent
    · simp only [handedTo, hsend]
      exact List.not_mem_nil
    · simp only [handedTo, hsend]
      intro hmem
      rcases List.mem_append.mp hmem with hmem | hmem
      · split_ifs at hmem with hs
        · exact hp hs (mem_of_mem_sent hsend hmem)
        · exact absurd hmem List.not_mem_nil
      · split_ifs at hmem
        · exact absurd hmem List.not_mem_nil
        · exact ih hps hmem

theorem Agrees.write {w' : Handshake k m n} {sends : List (List SendEvent)} (h : w.Agrees b fd)
    (he : w.write b fd i sends = some w') : w'.Agrees b fd := by
  unfold Handshake.write at he
  have hcs : ((w.clients i).write b sends).2.2 = { w.clients i with packetsToWrite := [] } := rfl
  rcases hwrite : (w.clients i).write b sends with ⟨attempted, stop | closed, cs⟩
  · rw [hwrite] at he
    cases he
  rw [hwrite] at hcs he
  obtain rfl : cs = _ := hcs
  have htame : Polled.Tame b fd (w.protocols i)
      { w.protocols i with clients := { w.clients i with packetsToWrite := [] } } :=
    write_tame (w.protocols i) sends
  dsimp only at he
  split_ifs at he with hg hshut
  · cases he
    exact .gone hg
  · cases he
    refine h.keep (fun hg => hg) rfl (fun hs => ⟨by simp [hs], ?_⟩) fun done rest h => ?_
    · rw [not_and, not_not] at hshut
      dsimp only
      rw [hshut hs, List.append_nil]
    · refine .paired done rest ((h.setPolled htame).of_same rfl rfl rfl rfl fun hn hmem => ?_)
      obtain ⟨-, hjoin, hquiet⟩ := h.unjoined hn
      rcases List.mem_append.mp hmem with hmem | hmem
      · exact hjoin hmem
      · exact joinByte_handedTo (hquiet i).writes hmem

theorem Agrees.close (h : w.Agrees b fd) (sockets : List ℤ) (balancer : Priority) (balancerIndex : ℕ) :
    (w.close fd i sockets balancer balancerIndex).Agrees b fd := by
  have htame : Polled.Tame b fd (w.protocols i) { w.protocols i with
      clients := (ClientInfos.close sockets (w.clients i) balancer balancerIndex).2.1 } := by
    rw [close_clients]
    exact sublist_tame (w.protocols i) fun c hc => ((Keyed.mem_entries_eraseAll _).mp hc).1
  have hgone : w.gone = true → (w.close fd i sockets balancer balancerIndex).gone = true := by
    intro hg
    simp [Handshake.close, hg]
  refine h.keep hgone rfl (fun hs => ⟨hs, rfl⟩) fun done rest h => .paired done rest ?_
  exact (h.setPolled htame).of_same rfl rfl rfl rfl fun hn => (h.unjoined hn).2.1

theorem Paired.takeOut (h : w.Paired b fd done rest) {c : ClientInfo} {cs : ClientInfoMap}
    (hsub : ∀ c' ∈ cs.entries, c' ∈ (w.clients i).clientInfos.entries)
    (hc : c.socket = fd → c ∈ (w.clients i).clientInfos.entries ∧ fd ∉ cs) :
    Paired b fd done rest { w.setClients i { w.clients i with clientInfos := cs } with
      transit := c :: w.transit } := by
  have htame : Polled.Tame b fd (w.protocols i) { w.protocols i with
      clients := { w.clients i with clientInfos := cs } } := sublist_tame (w.protocols i) hsub
  have hset := h.setPolled htame
  refine ⟨hset.packets, hset.c2s, ⟨hset.sole.apart, fun j hj c' hc' => ?_, ?_⟩, hset.known,
    fun c' hc' hs => ?_, hset.unjoined⟩
  · rcases List.mem_cons.mp hc' with rfl | hc'
    · intro hs
      obtain ⟨hmem, hout⟩ := hc hs
      obtain rfl := h.sole.apart j i (mem_setPolled htame.mem hj) (hs ▸ Keyed.mem_of_entry _ hmem)
      change fd ∈ ((w.setPolled j _).protocols j).clients.clientInfos at hj
      rw [protocols_setPolled_same] at hj
      exact hout hj
    · exact hset.sole.away j hj c' hc'
  · by_cases hs : c.socket = fd
    · have hnone : w.transit.countP (·.socket = fd) = 0 := by
        apply List.countP_eq_zero.mpr
        intro c' hc' hs'
        exact h.sole.away i (hs ▸ Keyed.mem_of_entry _ (hc hs).1) c' hc' (of_decide_eq_true hs')
      simp [hnone, hs]
    · simpa [List.countP_cons, hs] using h.sole.once
  · rcases List.mem_cons.mp hc' with rfl | hc'
    · exact h.known i c' (hc hs).1 hs
    · exact h.transit c' hc' hs

theorem Agrees.removeOldest (h : w.Agrees b fd) (hfd : 0 ≤ fd) (socket : ℤ) (now : Timespec) :
    (w.removeOldest i socket now).Agrees b fd := by
  refine h.keep (fun hg => hg) rfl (fun hs => ⟨hs, rfl⟩) fun done rest h => ?_
  unfold Handshake.removeOldest removeOldestClientAndReturn
  cases ho : (w.clients i).oldest socket with
  | none =>
    refine .paired done rest (h.takeOut (fun _ hc => hc) fun hs => ?_)
    have hsocket : (-1 : ℤ) = fd := hs
    omega
  | some c =>
    have hmem : c ∈ (w.clients i).clientInfos.entries := by
      unfold oldest at ho
      cases hf : (w.clients i).clientInfos.find socket with
      | none =>
        rw [hf, Option.none_or] at ho
        exact List.mem_of_mem_head? ho
      | some c' =>
        rw [hf, Option.some_or] at ho
        cases ho
        exact ((Keyed.find_eq_some _).mp hf).1
    refine .paired done rest (h.takeOut (fun c' hc' => ?_) fun hs => ?_)
    · exact ((Keyed.mem_entries_erase _).mp hc').1
    · exact ⟨hmem, fun hin => ((Keyed.mem_erase _).mp hin).2 hs.symm⟩

theorem Paired.putIn (h : w.Paired b fd done rest) {c : ClientInfo} (hc : c ∈ w.transit) :
    Paired b fd done rest { w.setClients i ((w.clients i).insert c) with
      transit := w.transit.erase c } := by
  have hperm := (List.perm_cons_erase hc).countP_eq (·.socket = fd)
  have honce := h.sole.once
  have hsub : ∀ c' ∈ w.transit.erase c, c' ∈ w.transit := fun c' hc' => List.mem_of_mem_erase hc'
  by_cases hs : c.socket = fd
  · have hnone : ∀ j, fd ∉ (w.clients j).clientInfos := fun j hj => h.sole.away j hj c hc hs
    have hrest : (w.transit.erase c).countP (·.socket = fd) = 0 := by
      rw [hperm, List.countP_cons_of_pos (by simpa using hs)] at honce
      omega
    have hplace : ∀ j, fd ∈ ((w.setClients i ((w.clients i).insert c)).clients j).clientInfos →
        j = i := by
      intro j hj
      by_contra hne
      change fd ∈ ((w.setPolled i _).protocols j).clients.clientInfos at hj
      rw [protocols_setPolled_other hne] at hj
      exact hnone j hj
    have hsole : Sole fd { w.setClients i ((w.clients i).insert c) with
        transit := w.transit.erase c } := by
      refine ⟨fun j j' hj hj' => (hplace j hj).trans (hplace j' hj').symm, fun j _ c' hc' hs' => ?_,
        hrest.le.trans (Nat.zero_le 1)⟩
      exact List.countP_eq_zero.mp hrest c' hc' (by simpa using hs')
    refine ⟨h.packets, h.c2s, hsole, ?_, fun c' hc' => h.transit c' (hsub c' hc'), fun hn => ?_⟩
    · apply forall_setPolled h.known
      intro c' hc' hs'
      rcases Keyed.mem_entries_insert _ hc' with rfl | hc'
      · exact h.transit c' hc hs
      · exact h.known i c' hc' hs'
    · obtain ⟨hrun, hjoin, hquiet⟩ := h.unjoined hn
      exact ⟨hrun, hjoin, forall_setPolled hquiet ⟨(hquiet i).reads, (hquiet i).writes⟩⟩
  · have hset := h.setPolled (insert_tame (w.protocols i) hs)
    have hsole : Sole fd { w.setClients i ((w.clients i).insert c) with
        transit := w.transit.erase c } :=
      ⟨hset.sole.apart, fun j hj c' hc' => hset.sole.away j hj c' (hsub c' hc'),
        List.erase_sublist.countP_le.trans honce⟩
    exact ⟨hset.packets, hset.c2s, hsole, hset.known, fun c' hc' => h.transit c' (hsub c' hc'),
      hset.unjoined⟩

theorem Agrees.add {w' : Handshake k m n} {c : ClientInfo} (h : w.Agrees b fd)
    (he : w.add fd i c = some w') : w'.Agrees b fd := by
  unfold Handshake.add at he
  split_ifs at he with hc hne
  · cases he
    exact h.keep (fun hg => hg) rfl (fun hs => ⟨hs, rfl⟩) fun done rest h =>
      .paired done rest (h.putIn hc)
  · cases he
    rcases hne with hne | hg
    · exact h.setPolled (insert_tame (w.protocols i) hne)
    · exact .gone hg

/-- **Every step keeps the invariant.** -/
theorem Agrees.exec {s0 : Calling m} {shot : Shot} {callback : Callback} {w' : Handshake k m n}
    {op : HandshakeOp k n} (h : w.Agrees b fd) (hfd : 0 ≤ fd) (hs : Stage.From b s0 w.stage)
    (hid : commandSize + s0.self.clientId.length < 2 ^ 16) (ha : w.Orderly b shot fd op)
    (he : w.exec b shot fd callback op = some w') : w'.Agrees b fd := by
  cases op with
  | client => exact h.client hs hid ha he
  | pollRead i buffer =>
    cases he
    exact h.setPolled (update_tame (w.protocols i) buffer)
  | turn i event => exact h.turn hs hid ha he
  | handOn i =>
    cases he
    exact h.setPolled (handOn_tame (w.protocols i))
  | execute i =>
    cases he
    exact h.setPolled (execute_tame (w.protocols i) callback)
  | write i sends => exact h.write he
  | filterSocketsToTerminate i sockets =>
    cases he
    exact h.setPolled (filterSocketsToTerminate_tame (w.protocols i) sockets)
  | close i sockets balancer balancerIndex =>
    cases he
    exact h.close sockets balancer balancerIndex
  | removeOldest i socket now =>
    cases he
    exact h.removeOldest hfd socket now
  | add i c => exact h.add he

theorem exec_stage {shot : Shot} {callback : Callback} {w' : Handshake k m n} {op : HandshakeOp k n}
    (he : w.exec b shot fd callback op = some w') :
    (op = .client ∧ w'.stage = w.stage.next b) ∨ w'.stage = w.stage := by
  cases op with
  | client =>
    obtain ⟨took, rfl, -⟩ := client_ok he
    exact Or.inl ⟨rfl, rfl⟩
  | turn i event =>
    right
    simp only [Handshake.exec, Handshake.turn] at he
    split at he
    · cases he
    split at he
    · cases he
      rfl
    split_ifs at he
    cases he
    rfl
  | write i sends =>
    right
    simp only [Handshake.exec, Handshake.write] at he
    split at he
    · cases he
    split_ifs at he
    · cases he
      rfl
    · cases he
      rfl
  | add i c =>
    right
    simp only [Handshake.exec, Handshake.add] at he
    split_ifs at he
    · cases he
      rfl
    · cases he
      rfl
  | _ =>
    cases he
    exact Or.inr rfl

end Steps

section Runs

variable {b : Build} {shot : Shot} {fd : ℤ} {callback : Callback} {s0 : Calling m}
  {w0 w : Handshake k m n} {ops : List (HandshakeOp k n)}

theorem Begins.agrees (h : Begins fd s0 w0) : w0.Agrees b fd := by
  have hpackets : w0.stage.packets = [] ++ [] := by
    rw [h.stage]
    rfl
  refine .paired [] [] ⟨hpackets, h.c2s, h.sole, h.registered, h.transit, fun _ => ⟨?_, ?_, fun i => ?_⟩⟩
  · rw [h.stage]
    rfl
  · rw [h.s2c]
    exact List.not_mem_nil
  refine ⟨fun p hp => ?_, fun p hp hs => ?_⟩
  · exact h.packets i p (List.mem_append_left _ hp)
  · exact absurd hs (h.packets i p (List.mem_append_right _ hp))

theorem Begins.from (h : Begins fd s0 w0) : Stage.From b s0 w0.stage := by
  rw [h.stage]
  exact ⟨rfl, trivial, Or.inr ⟨rfl, rfl, by rw [Stage.calling, h.acts]; rfl, h.handed⟩⟩

/-- Every state of such a run has the invariant, and its client is in a call from `s0`. -/
theorem Begins.run (h : Begins fd s0 w0) (hid : commandSize + s0.self.clientId.length < 2 ^ 16)
    (hr : Run (Step b shot fd callback (Orderly b shot fd)) w0 ops w) :
    w.Agrees b fd ∧ Stage.From b s0 w.stage := by
  refine hr.invariant (I := fun _ w => w.Agrees b fd ∧ Stage.From b s0 w.stage) ⟨h.agrees, h.from⟩ ?_
  intro history es w w' hw hstep
  obtain ⟨hagrees, hfrom⟩ := hw
  obtain ⟨op, -, ha, he⟩ := hstep
  refine ⟨hagrees.exec h.descriptor hfrom hid ha he, ?_⟩
  rcases exec_stage he with ⟨rfl, hnext⟩ | hsame
  · rw [hnext]
    exact hfrom.next hid ha
  · rwa [hsame]

theorem Agrees.known (h : w.Agrees b fd) {result : Result} {s : Calling m}
    (hstage : w.stage = .returned (.ok result) s) (hs : result.isFailure = false)
    (hg : w.gone = false) (i : Fin k) : (w.protocols i).Known fd s.self.clientId := by
  cases h with
  | gone h =>
    rw [hg] at h
    cases h
  | failed h =>
    rw [hstage] at h
    exact absurd (hs.symm.trans h) Bool.false_ne_true
  | lost h =>
    have hrun := h.running
    rw [hstage] at hrun
    cases hrun
  | paired done rest h =>
    have hpackets := h.packets
    rw [hstage] at hpackets
    have hn : ¬Nameless done := by
      intro hn
      have hrun := (h.unjoined hn).1
      rw [hstage] at hrun
      cases hrun
    have hname : named [] done = s.self.clientId := (Stage.named_packets hpackets hn).2
    rw [← hname]
    exact h.known i

/-- **Handshake agreement**, in a run where the client's sends take their packets whole and
the server's reads go on from whole pieces. Where `SetupConnection` has returned a success,
the client has sent its `ACKA` and its `ACID`, and whatever protocol the connection's client
is registered at has its identity. -/
theorem setup_agrees (hbegins : Begins fd s0 w0)
    (hid : commandSize + s0.self.clientId.length < 2 ^ 16)
    (hr : Run (Step b shot fd callback (Orderly b shot fd)) w0 ops w)
    {result : Result} {s : Calling m} (hstage : w.stage = .returned (.ok result) s)
    (hs : result.isSuccess = true) :
    ClientLearnProtocol.setupConnection b s0 = (.ok result, s) ∧
      sentPackets s.acts = [s0.self.ackOf, s0.self.identityOf] ∧
      s.handed = wire b.order [s0.self.ackOf, s0.self.identityOf] ∧
      (w.gone = false → ∀ i, ∀ c ∈ (w.clients i).clientInfos.entries, c.socket = fd →
        c.clientId = s0.self.clientId) := by
  have hsucc : result.isFailure = false := by simpa [Result.isSuccess] using hs
  obtain ⟨hagrees, hfrom⟩ := hbegins.run hid hr
  rw [hstage] at hfrom
  have hlog := hfrom.logged.resolve_left (ne_true_of_eq_false hsucc)
  have hserver : s.self.server = s0.self.server := hlog.server
  have hclientId : s.self.clientId = s0.self.clientId := hlog.clientId
  have hpackets : (Stage.returned (.ok result) s).packets = [s0.self.ackOf, s0.self.identityOf] := by
    simp only [Stage.packets, ClientLearnProtocol.ackOf, ClientLearnProtocol.identityOf, hserver,
      hclientId]
  have hsent := hlog.sent
  have hhanded := hlog.handed
  rw [hpackets] at hsent hhanded
  refine ⟨hfrom.outcome.symm, hsent, hhanded, fun hg i c hc hfd => ?_⟩
  rw [← hclientId]
  exact hagrees.known hstage hsucc hg i c hc hfd

end Runs


/-- The operations one after another, as long as they meet the check. -/
def execAll (b : Build) (shot : Shot) (fd : ℤ) (callback : Callback)
    (check : Handshake k m n → HandshakeOp k n → Bool) :
    List (HandshakeOp k n) → Handshake k m n → Option (Handshake k m n)
  | [], w => some w
  | op :: ops, w =>
    if check w op then (w.exec b shot fd callback op).bind (execAll b shot fd callback check ops)
    else none

theorem run_execAll {b : Build} {shot : Shot} {fd : ℤ} {callback : Callback}
    {check : Handshake k m n → HandshakeOp k n → Bool}
    {Allowed : Handshake k m n → HandshakeOp k n → Prop} {ops done : List (HandshakeOp k n)}
    (hops : ∀ op ∈ ops, ∀ w, check w op = true → Allowed w op) {init w w' : Handshake k m n}
    (hr : Run (Step b shot fd callback Allowed) init done w)
    (h : execAll b shot fd callback check ops w = some w') :
    Run (Step b shot fd callback Allowed) init (done ++ ops) w' := by
  induction ops generalizing w done with
  | nil =>
    cases h
    rwa [List.append_nil]
  | cons op ops ih =>
    rw [List.forall_mem_cons] at hops
    rw [execAll] at h
    split_ifs at h with hcheck
    obtain ⟨w1, hexec, hrest⟩ := Option.bind_eq_some_iff.mp h
    rw [List.append_cons]
    exact ih hops.2 (.next hr ⟨op, rfl, hops.1 w hcheck, hexec⟩) hrest

/-- What a successful call has returned, whether the connection is closed, and the identities
of the clients of the protocol `i`. -/
def seen (i : Fin k) (w : Handshake k m n) : Option Result × Bool × List (ℤ × List Byte) :=
  (w.stage.result?, w.gone, (w.clients i).clientInfos.entries.map fun c => (c.socket, c.clientId))

end Handshake

/-- The connection of a client that was just accepted. -/
def sampleHandshake (sends : List (List SendEvent)) : Handshake 1 106 106 :=
  { protocols := fun _ => samplePolled 4
    transit := []
    stage := .fresh { sampleCalling (Deadline.make 4) with sends := sends }
    c2s := []
    s2c := []
    shut := false
    gone := false }

/-- What the server reads at a time. -/
def sampleArrival (bytes : List Byte) : EpollEvent :=
  { fd := 5, readable := true, recv := [.arrive bytes], now := ⟨1, 0⟩, clock := fun _ => ⟨1, 0⟩ }

/-- The parties in turn; the last packet of the client arrives as `bytes`. -/
def sampleTurns (bytes : List Byte) : List (HandshakeOp 1 106) :=
  [.client, .turn 0 (sampleArrival (0 :: 4 :: Commands.Setup.ack)), .write 0 [], .client, .client,
    .turn 0 (sampleArrival bytes), .write 0 [], .client]

theorem begins_sample (sends : List (List SendEvent)) :
    Handshake.Begins 5 { sampleCalling (Deadline.make 4) with sends := sends }
      (sampleHandshake sends) where
  descriptor := by decide
  stage := rfl
  acts := rfl
  handed := rfl
  c2s := rfl
  s2c := rfl
  shut := rfl
  gone := rfl
  sole := ⟨fun _ _ _ _ => Subsingleton.elim _ _, fun _ _ c hc => absurd hc List.not_mem_nil,
    Nat.zero_le 1⟩
  registered := by
    intro i c hc _
    rcases Keyed.mem_entries_insert _ hc with rfl | hc
    · rfl
    · exact absurd hc List.not_mem_nil
  transit c hc := absurd hc List.not_mem_nil
  packets i p hp := absurd hp List.not_mem_nil

theorem sentWhole_nil (b : Build) (p : NetworkPacket) : SentWhole b p [] := by
  intro k hk
  rw [sendCounts] at hk
  split_ifs at hk
  · exact List.mem_singleton.mp hk
  · exact absurd hk List.not_mem_nil

/-- A client that is called "one" sets its connection up. -/
theorem setup_agrees_sample : ∃ (w : Handshake 1 106 106) (s : Calling 106),
    w.stage = .returned (.ok { noOfBytes := 9 }) s ∧ w.gone = false ∧
      sentPackets s.acts = [⟨3, Commands.Setup.ack, []⟩,
        ⟨3, Commands.Setup.clientID, Commands.ascii "one".toList⟩] ∧
      ∀ i, ∀ c ∈ (w.clients i).clientInfos.entries, c.socket = 5 →
        c.clientId = Commands.ascii "one".toList := by
  have hmap : ((Handshake.execAll ⟨true, .little⟩ .single 5 Net.sampleCallback
      (fun w _ => w.stage.calling.sends.isEmpty)
      (sampleTurns (0 :: 7 :: Commands.Setup.clientID ++ Commands.ascii "one".toList))
      (sampleHandshake [])).map (Handshake.seen 0)) =
        some (some { noOfBytes := 9 }, false, [(5, Commands.ascii "one".toList)]) := by decide +kernel
  obtain ⟨w, hw, hseen⟩ := Option.map_eq_some_iff.mp hmap
  obtain ⟨hresult, hrest⟩ := Prod.mk.inj hseen
  obtain ⟨hgone, -⟩ := Prod.mk.inj hrest
  obtain ⟨s, hstage⟩ := Stage.result?_eq_some hresult
  have hclient : ∀ w : Handshake 1 106 106, w.stage.calling.sends.isEmpty = true →
      w.Orderly ⟨true, .little⟩ .single 5 .client := by
    intro w hempty p _
    rw [List.isEmpty_iff.mp hempty]
    exact sentWhole_nil _ p
  have hturn : ∀ bytes, Unbroken ⟨true, .little⟩ [.arrive bytes] →
      ∀ w : Handshake 1 106 106, w.stage.calling.sends.isEmpty = true →
        w.Orderly ⟨true, .little⟩ .single 5 (.turn 0 (sampleArrival bytes)) :=
    fun bytes hb _ _ _ _ _ => hb
  have hrun := Handshake.run_execAll (List.forall_mem_cons.mpr ⟨hclient, List.forall_mem_cons.mpr
    ⟨hturn _ ⟨fun h => absurd h.2 (by decide), fun h => absurd h.2 (by decide)⟩, by
      simp only [List.forall_mem_cons]
      exact ⟨fun _ _ => trivial, hclient, hclient,
        hturn _ ⟨fun h => absurd h.2 (by decide), fun h => absurd h.2 (by decide)⟩,
        fun _ _ => trivial, hclient, fun _ h => absurd h List.not_mem_nil⟩⟩⟩) .start hw
  obtain ⟨-, hsent, -, hids⟩ :=
    Handshake.setup_agrees (begins_sample []) (by decide) hrun hstage (by decide)
  exact ⟨w, s, hstage, hgone, hsent, hids hgone⟩

/-- Seven bytes of an `ACID` are taken, and then the packet from its start: the server lets
the client in under another name. -/
theorem setup_misnamed :
    ¬∀ (k m n : ℕ) (b : Build) (shot : Shot) (fd : ℤ) (callback : Callback) (s0 : Calling m)
      (w0 w : Handshake k m n) (ops : List (HandshakeOp k n)) (result : Result) (s : Calling m),
      Handshake.Begins fd s0 w0 →
      Run (Handshake.Step b shot fd callback fun _ _ => True) w0 ops w →
      w.stage = .returned (.ok result) s → result.isSuccess = true →
      sentPackets s.acts = [s0.self.ackOf, s0.self.identityOf] ∧
        (w.gone = false → ∀ i, ∀ c ∈ (w.clients i).clientInfos.entries, c.socket = fd →
          c.clientId = s0.self.clientId) := by
  intro h
  have hmap : ((Handshake.execAll ⟨true, .little⟩ .single 5 Net.sampleCallback (fun _ _ => true)
      (sampleTurns (0 :: 7 :: Commands.Setup.clientID ++ Commands.ascii "o".toList ++
        0 :: 7 :: Commands.Setup.clientID ++ Commands.ascii "one".toList))
      (sampleHandshake [[], [.sent 7]])).map (Handshake.seen 0)) =
        some (some { noOfBytes := 16 }, false, [(5, Commands.ascii "o".toList ++ [0, 7])]) := by
    decide +kernel
  obtain ⟨w, hw, hseen⟩ := Option.map_eq_some_iff.mp hmap
  obtain ⟨hresult, hrest⟩ := Prod.mk.inj hseen
  obtain ⟨hgone, hnames⟩ := Prod.mk.inj hrest
  obtain ⟨s, hstage⟩ := Stage.result?_eq_some hresult
  obtain ⟨c, hc, hname⟩ := List.map_eq_singleton_iff.mp hnames
  obtain ⟨hsocket, hid⟩ := Prod.mk.inj hname
  have hagrees := (h 1 106 106 _ _ _ _ _ _ _ _ _ _ (begins_sample [[], [.sent 7]])
    (Handshake.run_execAll (fun _ _ _ _ => trivial) .start hw) hstage (by decide)).2 hgone 0 c
    (by rw [hc]; exact List.mem_singleton_self c) hsocket
  rw [hid] at hagrees
  exact absurd hagrees (by decide)

end PollServer
