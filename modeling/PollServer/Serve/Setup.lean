import PollServer.Serve.Parties

/-! `SetupConnection` in its stages: the call is what comes of them one after another, what
it has sent at each, and that it succeeds over a byte that only a `JOIN` brings. -/

namespace PollServer

open Lib StopM NetworkPacket

def ClientLearnProtocol.ackOf (c : ClientLearnProtocol) : NetworkPacket :=
  ⟨c.server, Commands.Setup.ack, []⟩

def ClientLearnProtocol.identityOf (c : ClientLearnProtocol) : NetworkPacket :=
  ⟨c.server, Commands.Setup.clientID, c.clientId⟩

/-- The first byte of `JOIN`, which is in no other command of a set up. -/
def joinByte : Byte := 74

/-- Each `send` of the packet takes it whole. -/
def SentWhole (b : Build) (p : NetworkPacket) (events : List SendEvent) : Prop :=
  ∀ k ∈ sendCounts b (p.marshall b.order).length events 0 {}, k = (p.marshall b.order).length

theorem Framed.length_marshall {p : NetworkPacket} (hp : Framed p) (order : ByteOrder) :
    (p.marshall order).length < 2 ^ 64 := by
  have hsize := hp.size
  rw [payload, List.length_append] at hsize
  rw [marshall, List.length_append, List.length_append, length_sizeBuffer, sizeBytes]
  omega

namespace Stage

open ClientLearnProtocol

variable {n : ℕ} {b : Build}

def running : Stage n → Bool
  | returned _ _ => false
  | _ => true

/-- The call has returned, and without success. -/
def failed : Stage n → Bool
  | returned (.ok result) _ => result.isFailure
  | returned (.error _) _ => true
  | _ => false

/-- What the call has sent by now, if it has not failed. -/
def packets : Stage n → List NetworkPacket
  | fresh _ => []
  | awaitSyn _ s => [s.self.ackOf]
  | synced s => [s.self.ackOf]
  | awaitJoin _ s => [s.self.ackOf, s.self.identityOf]
  | returned _ s => [s.self.ackOf, s.self.identityOf]

/-- The sends that the call has gone on from did not fail. -/
def Going : Stage n → Prop
  | awaitSyn result _ => result.isFailure = false
  | awaitJoin result _ => result.isFailure = false
  | _ => True

/-- What comes of the call from here. -/
def outcome (b : Build) : Stage n → Except Stop Result × Calling n
  | fresh s => setupConnection b s
  | awaitSyn result s => readSyn b result s
  | synced s => (writeTo b s.self.identityOf >>= readJoin b) s
  | awaitJoin result s => readJoin b result s
  | returned r s => (r, s)

theorem written_cases (await : Result → Calling n → Stage n) (r : Except Stop Result × Calling n) :
    (written await r).failed = true ∨ ∃ result s, r = (.ok result, s) ∧
      result.isFailure = false ∧ written await r = await result s := by
  obtain ⟨stop | result, s⟩ := r
  · exact Or.inl rfl
  · cases h : result.isFailure with
    | true => exact Or.inl (by simp only [written, h, if_true, failed])
    | false => exact Or.inr ⟨result, s, rfl, h, by simp [written, h]⟩

theorem answered_cases (command : List Byte) (result : Result) (go : Calling n → Stage n)
    (r : Except Stop NetworkPacket × Calling n) :
    (answered command result go r).failed = true ∨ ∃ packet s, r = (.ok packet, s) ∧
      packet.command = command ∧ answered command result go r = go s := by
  obtain ⟨stop | packet, s⟩ := r
  · exact Or.inl rfl
  · by_cases h : packet.command = command
    · exact Or.inr ⟨packet, s, rfl, h, by simp [answered, h]⟩
    · exact Or.inl (by simp [answered, h, failed, Result.isFailure])

theorem outcome_written (await : Result → Calling n → Stage n) {f : Result → ClientM n Result}
    (hawait : ∀ result s, result.isFailure = false →
      (await result s).outcome b = f result s ∧ (await result s).Going)
    (hfail : ∀ result s, result.isFailure = true → f result s = (.ok result, s))
    (m : ClientM n Result) (s : Calling n) :
    (written await (m s)).outcome b = (m >>= f) s ∧ (written await (m s)).Going := by
  rcases hm : m s with ⟨stop | result, s1⟩
  · rw [bind_error hm]
    exact ⟨rfl, trivial⟩
  · rw [bind_ok hm]
    cases hf : result.isFailure with
    | true =>
      rw [hfail _ _ hf]
      simp only [written, hf, if_true]
      exact ⟨rfl, trivial⟩
    | false =>
      simp only [written, hf]
      exact hawait result s1 hf

theorem outcome_answered (go : Calling n → Stage n) {f : ClientM n Result}
    (hgo : ∀ s, (go s).outcome b = f s ∧ (go s).Going) (command : List Byte) (result : Result)
    (m : ClientM n NetworkPacket) (s : Calling n) :
    (answered command result go (m s)).outcome b = (m >>= fun packet =>
      if packet.command ≠ command then return { result with socketClosed := true } else f) s ∧
      (answered command result go (m s)).Going := by
  rcases hm : m s with ⟨stop | packet, s1⟩
  · rw [bind_error hm]
    exact ⟨rfl, trivial⟩
  · rw [bind_ok hm]
    simp only [answered]
    split_ifs
    · exact ⟨rfl, trivial⟩
    · exact hgo s1

/-- The stages go on to what the call comes to. -/
theorem outcome_next {stage : Stage n} (h : stage.Going) :
    (stage.next b).outcome b = stage.outcome b ∧ (stage.next b).Going := by
  cases stage with
  | fresh s =>
    refine outcome_written awaitSyn (f := readSyn b) (fun _ _ hf => ⟨rfl, hf⟩) (fun result s hf => ?_)
      (write b s.self.ackOf) s
    rw [readSyn, if_pos hf]
    rfl
  | awaitSyn result s =>
    have hstart : readSyn b result s = _ := congrFun (if_neg (ne_true_of_eq_false h)) s
    rw [outcome, hstart]
    exact outcome_answered synced (fun _ => ⟨rfl, trivial⟩) _ _ (ClientLearnProtocol.readFrom b) s
  | synced s =>
    refine outcome_written awaitJoin (f := readJoin b) (fun _ _ hf => ⟨rfl, hf⟩) (fun result s hf => ?_)
      (writeTo b s.self.identityOf) s
    rw [readJoin, if_pos hf]
    rfl
  | awaitJoin result s =>
    have hstart : readJoin b result s = _ := congrFun (if_neg (ne_true_of_eq_false h)) s
    rw [outcome, hstart]
    exact outcome_answered (returned (.ok result)) (fun _ => ⟨rfl, trivial⟩) _ _
      (ClientLearnProtocol.readFrom b) s
  | returned r s => exact ⟨rfl, trivial⟩

theorem readFrom_eq {s s' : Calling n} {r : Except Stop NetworkPacket}
    (h : ClientLearnProtocol.readFrom b s = (r, s')) :
    readPacket b s.self.server s.self.timeout s.wire = (r, s'.wire) ∧
      s' = { s with wire := s'.wire } := by
  obtain ⟨rfl, rfl⟩ := Prod.mk.inj h
  exact ⟨rfl, rfl⟩

/-- A packet that is sent is logged and handed over. -/
structure Wrote (b : Build) (p : NetworkPacket) (s s' : Calling n) : Prop where
  server : s'.self.server = s.self.server
  clientId : s'.self.clientId = s.self.clientId
  sent : sentPackets s'.acts = sentPackets s.acts ++ [p]
  handed : s'.handed = s.handed ++ p.marshall b.order

theorem writeTo_wrote {p : NetworkPacket} (hp : Framed p) {s s' : Calling n} {result : Result}
    (hw : SentWhole b p (s.sends.headD [])) (h : writeTo b p s = (.ok result, s'))
    (hs : result.isFailure = false) : Wrote b p s s' := by
  obtain ⟨ready, s1, hpoll, hsame⟩ : ∃ ready s1,
      onWire (fun timeout _ => pollIn timeout) s = (ready, s1) ∧
        s1 = { s with wire := s1.wire } := ⟨_, _, rfl, rfl⟩
  rcases ready with stop | _ | _
  · rw [writeTo, bind_error hpoll] at h
    cases h
  · rw [writeTo, bind_ok hpoll] at h
    cases h
    cases hs
  · rw [writeTo, bind_ok hpoll, if_pos rfl, sendOut] at h
    rw [hsame] at h
    dsimp only at h
    rcases hsend : sendRaw b (p.marshall b.order) (s.sends.headD []) with stop | sent
    · rw [hsend] at h
      cases h
    · rw [hsend] at h
      cases h
      have hwire := sendRaw_whole (hp.length_marshall b.order) hsend hw hs
      refine ⟨rfl, rfl, ?_, by rw [← hwire]⟩
      dsimp only
      rw [if_pos (by rw [Result.isSuccess, hs]; rfl)]
      exact List.filterMap_append

theorem write_wrote {p : NetworkPacket} (hp : Framed p) {s s' : Calling n} {result : Result}
    (hw : SentWhole b p (s.sends.headD [])) (h : write b p s = (.ok result, s'))
    (hs : result.isFailure = false) : Wrote b p s s' := by
  have hlook := look_apply (b := b) s
  rcases hd : s.self.deadline.breached b (s.clock s.ticks) with stop | _ | _
  · rw [hd] at hlook
    rw [write, bind_error hlook] at h
    cases h
  · rw [hd] at hlook
    rw [write, bind_ok hlook, if_neg Bool.false_ne_true] at h
    obtain ⟨s1, hcount, hserver, hid, hsends, hacts, hhanded⟩ : ∃ s1 : Calling n,
        count { s with ticks := s.ticks + 1, acts := s.acts ++ [.looked (s.clock s.ticks)] } =
          (.ok (), s1) ∧ s1.self.server = s.self.server ∧ s1.self.clientId = s.self.clientId ∧
          s1.sends = s.sends ∧ sentPackets s1.acts = sentPackets s.acts ∧ s1.handed = s.handed :=
      ⟨_, rfl, rfl, rfl, rfl, by simp [sentPackets], rfl⟩
    rw [bind_ok hcount] at h
    have hwrote := writeTo_wrote hp (by rwa [hsends]) h hs
    exact ⟨hwrote.server.trans hserver, hwrote.clientId.trans hid, by rw [hwrote.sent, hacts],
      by rw [hwrote.handed, hhanded]⟩
  · rw [hd] at hlook
    rw [write, bind_ok hlook, if_pos rfl] at h
    cases h
    cases hs

/-- What the call has sent and handed over goes on by what it was about to send. -/
structure Advanced (b : Build) (stage stage' : Stage n) : Prop where
  server : stage'.calling.self.server = stage.calling.self.server
  clientId : stage'.calling.self.clientId = stage.calling.self.clientId
  packets : stage'.packets = stage.packets ++ stage.outgoing.toList
  sent : sentPackets stage'.calling.acts = sentPackets stage.calling.acts ++ stage.outgoing.toList
  handed : stage'.calling.handed = stage.calling.handed ++ wire b.order stage.outgoing.toList

theorem Wrote.advanced {p : NetworkPacket} (stage stage' : Stage n)
    (h : Wrote b p stage.calling stage'.calling) (hp : stage.outgoing = some p)
    (hpackets : stage'.packets = stage.packets ++ [p]) : Advanced b stage stage' := by
  refine ⟨h.server, h.clientId, ?_, ?_, ?_⟩
  · rw [hpackets, hp, Option.toList_some]
  · rw [h.sent, hp, Option.toList_some]
  · rw [h.handed, hp, Option.toList_some, wire, List.map_singleton, List.flatten_singleton]

theorem Advanced.of_read {stage stage' : Stage n} (hstage : stage.outgoing = none)
    (h : stage'.calling = { stage.calling with wire := stage'.calling.wire })
    (hpackets : stage'.packets = stage.packets) : Advanced b stage stage' := by
  refine ⟨by rw [h], by rw [h], ?_, ?_, ?_⟩
  · rw [hpackets, hstage, Option.toList_none, List.append_nil]
  · rw [h, hstage, Option.toList_none, List.append_nil]
  · rw [h, hstage, Option.toList_none, wire, List.map_nil, List.flatten_nil, List.append_nil]

/-- **One send or one read**, of which the send takes its packet whole: it fails, or the call
has sent what it was about to. -/
theorem next_advanced {stage : Stage n} (hf : ∀ p ∈ stage.outgoing, Framed p)
    (hw : ∀ p ∈ stage.outgoing, SentWhole b p (stage.calling.sends.headD [])) :
    (stage.next b).failed = true ∨ Advanced b stage (stage.next b) := by
  cases stage with
  | fresh s =>
    rcases written_cases awaitSyn (write b s.self.ackOf s) with hfail | ⟨result, s', hr, hs, hnext⟩
    · exact Or.inl hfail
    · have hwrote := write_wrote (hf _ rfl) (hw _ rfl) hr hs
      right
      rw [show (fresh s).next b = awaitSyn result s' from hnext]
      apply hwrote.advanced (fresh s) (awaitSyn result s') rfl
      simp [packets, ackOf, hwrote.server, calling]
  | awaitSyn result s =>
    rcases answered_cases Commands.Setup.syn result synced (ClientLearnProtocol.readFrom b s) with
      hfail | ⟨packet, s', hr, -, hnext⟩
    · exact Or.inl hfail
    · right
      rw [show (awaitSyn result s).next b = synced s' from hnext]
      have hsame := (readFrom_eq hr).2
      exact .of_read rfl hsame (by rw [hsame]; rfl)
  | synced s =>
    rcases written_cases awaitJoin (writeTo b s.self.identityOf s) with
      hfail | ⟨result, s', hr, hs, hnext⟩
    · exact Or.inl hfail
    · have hwrote := writeTo_wrote (hf _ rfl) (hw _ rfl) hr hs
      right
      rw [show (synced s).next b = awaitJoin result s' from hnext]
      apply hwrote.advanced (synced s) (awaitJoin result s') rfl
      simp [packets, ackOf, identityOf, hwrote.server, hwrote.clientId, calling]
  | awaitJoin result s =>
    rcases answered_cases Commands.Setup.join result (returned (.ok result))
      (ClientLearnProtocol.readFrom b s) with hfail | ⟨packet, s', hr, -, hnext⟩
    · exact Or.inl hfail
    · right
      rw [show (awaitJoin result s).next b = returned (.ok result) s' from hnext]
      have hsame := (readFrom_eq hr).2
      exact .of_read rfl hsame (by rw [hsame]; rfl)
  | returned r s => exact Or.inr (.of_read rfl rfl rfl)

/-- **The call succeeds over a byte that only a `JOIN` brings.** -/
theorem next_joined {stage : Stage n} (hrun : stage.running = true)
    (hnext : (stage.next b).running = false) (hf : (stage.next b).failed = false) :
    ∃ took, arrived stage.calling.wire.inb.events =
      took ++ arrived (stage.next b).calling.wire.inb.events ∧ joinByte ∈ took := by
  cases stage with
  | fresh s =>
    rcases written_cases awaitSyn (write b s.self.ackOf s) with hfail | ⟨result, s', -, -, h⟩
    · exact absurd (hf.symm.trans hfail) Bool.false_ne_true
    · rw [show (fresh s).next b = awaitSyn result s' from h] at hnext
      cases hnext
  | awaitSyn result s =>
    rcases answered_cases Commands.Setup.syn result synced (ClientLearnProtocol.readFrom b s) with
      hfail | ⟨packet, s', -, -, h⟩
    · exact absurd (hf.symm.trans hfail) Bool.false_ne_true
    · rw [show (awaitSyn result s).next b = synced s' from h] at hnext
      cases hnext
  | synced s =>
    rcases written_cases awaitJoin (writeTo b s.self.identityOf s) with hfail | ⟨result, s', -, -, h⟩
    · exact absurd (hf.symm.trans hfail) Bool.false_ne_true
    · rw [show (synced s).next b = awaitJoin result s' from h] at hnext
      cases hnext
  | awaitJoin result s =>
    rcases answered_cases Commands.Setup.join result (returned (.ok result))
      (ClientLearnProtocol.readFrom b s) with hfail | ⟨packet, s', hr, hp, h⟩
    · exact absurd (hf.symm.trans hfail) Bool.false_ne_true
    · rw [show (awaitJoin result s).next b = returned (.ok result) s' from h]
      obtain ⟨took, htook, hmade | ⟨c, hc, hhead⟩⟩ := readPacket_head (readFrom_eq hr).1
      · rw [MadeUp, hp] at hmade
        exact absurd hmade (by decide)
      · rw [hp] at hhead
        cases hhead
        exact ⟨took, htook, hc⟩
  | returned r s => cases hrun

theorem mem_packets {stage : Stage n} {p : NetworkPacket}
    (h : p ∈ stage.packets ++ stage.outgoing.toList) :
    p = stage.calling.self.ackOf ∨ p = stage.calling.self.identityOf := by
  cases stage with
  | fresh s => exact Or.inl (List.mem_singleton.mp h)
  | awaitSyn result s => exact Or.inl (List.mem_singleton.mp h)
  | synced s => exact List.mem_pair.mp h
  | awaitJoin result s => exact List.mem_pair.mp h
  | returned r s => exact List.mem_pair.mp h

theorem command_packets {stage : Stage n} {p : NetworkPacket} (h : p ∈ stage.packets) :
    p.command = Commands.Setup.ack ∨ p.command = Commands.Setup.clientID := by
  rcases mem_packets (List.mem_append_left _ h) with rfl | rfl
  · exact Or.inl rfl
  · exact Or.inr rfl

theorem framed_packets {stage : Stage n}
    (h : commandSize + stage.calling.self.clientId.length < 2 ^ 16) :
    ∀ p ∈ stage.packets ++ stage.outgoing.toList, Framed p := by
  intro p hp
  rcases mem_packets hp with rfl | rfl
  · exact ⟨rfl, show (Commands.Setup.ack ++ []).length < 2 ^ 16 by decide⟩
  · exact ⟨rfl, by rwa [payload, List.length_append]⟩

/-- Where the call that starts in `s0` has come to `stage`, it has sent the packets of that
stage, as long as it has not failed. -/
structure Logged (b : Build) (s0 : Calling n) (stage : Stage n) : Prop where
  server : stage.calling.self.server = s0.self.server
  clientId : stage.calling.self.clientId = s0.self.clientId
  sent : sentPackets stage.calling.acts = stage.packets
  handed : stage.calling.handed = wire b.order stage.packets

structure From (b : Build) (s0 : Calling n) (stage : Stage n) : Prop where
  outcome : stage.outcome b = setupConnection b s0
  going : stage.Going
  logged : stage.failed = true ∨ Logged b s0 stage

theorem next_of_failed {stage : Stage n} (h : stage.failed = true) : stage.next b = stage := by
  cases stage with
  | returned r s => rfl
  | fresh s => cases h
  | awaitSyn result s => cases h
  | synced s => cases h
  | awaitJoin result s => cases h

theorem wire_append (order : ByteOrder) (ps qs : List NetworkPacket) :
    wire order (ps ++ qs) = wire order ps ++ wire order qs := by
  rw [wire, List.map_append, List.flatten_append, wire, wire]

theorem Logged.advance {s0 : Calling n} {stage stage' : Stage n} (h : Logged b s0 stage)
    (ha : Advanced b stage stage') : Logged b s0 stage' where
  server := ha.server.trans h.server
  clientId := ha.clientId.trans h.clientId
  sent := by rw [ha.sent, h.sent, ha.packets]
  handed := by rw [ha.handed, h.handed, ha.packets, wire_append]

theorem Logged.framed {s0 : Calling n} {stage : Stage n} (h : Logged b s0 stage)
    (hid : commandSize + s0.self.clientId.length < 2 ^ 16) :
    ∀ p ∈ stage.packets ++ stage.outgoing.toList, Framed p :=
  framed_packets (by rwa [h.clientId])

theorem From.next {s0 : Calling n} {stage : Stage n} (h : From b s0 stage)
    (hid : commandSize + s0.self.clientId.length < 2 ^ 16)
    (hw : ∀ p ∈ stage.outgoing, SentWhole b p (stage.calling.sends.headD [])) :
    From b s0 (stage.next b) := by
  obtain ⟨houtcome, hgoing⟩ := outcome_next (b := b) h.going
  refine ⟨houtcome.trans h.outcome, hgoing, ?_⟩
  rcases h.logged with hfail | hlog
  · rw [next_of_failed hfail]
    exact Or.inl hfail
  · refine (next_advanced (fun p hp => ?_) hw).imp_right hlog.advance
    exact hlog.framed hid p (List.mem_append_right _ (Option.mem_toList.mpr hp))

def result? : Stage n → Option Result
  | returned (.ok result) _ => some result
  | _ => none

theorem result?_eq_some {stage : Stage n} {result : Result} (h : stage.result? = some result) :
    ∃ s, stage = returned (.ok result) s := by
  cases stage with
  | returned r s =>
    cases r with
    | ok r =>
      cases h
      exact ⟨s, rfl⟩
    | error stop => cases h
  | fresh s => cases h
  | awaitSyn r s => cases h
  | synced s => cases h
  | awaitJoin r s => cases h

end Stage

end PollServer
