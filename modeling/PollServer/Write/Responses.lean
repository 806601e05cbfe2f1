import PollServer.Model.ClientInfos

/-! `ClientInfos::Execute` and `ClientInfos::Write`. The first replaces every packet by what
the callback makes of it, but for those whose client is gone, which it moves to the write
queue as they came. In the second the first packet whose `send` finds its peer gone ends the
call, and what was queued behind it is gone with the list it was moved to. -/

namespace PollServer

namespace ClientInfos

variable (cs : ClientInfos) (callback : NetworkPacket → ClientInfo → NetworkPacket)

/-- What the callback makes of the packets whose clients are there. -/
def answers : List NetworkPacket :=
  cs.packetsToRead.filterMap fun packet => (cs.clientInfos.find packet.socket).map (callback packet)

theorem answers_eq_calls : cs.answers callback = cs.calls.map fun x => callback x.1 x.2 := by
  simp [answers, calls, List.map_filterMap, Function.comp_def]

theorem mem_calls {packet : NetworkPacket} {info : ClientInfo} : (packet, info) ∈ cs.calls ↔
    packet ∈ cs.packetsToRead ∧ cs.clientInfos.find packet.socket = some info := by
  simp [calls]

/-- **What `execute` does depends on the callback through its calls**, and on each of them. -/
theorem execute_eq_iff (callback' : NetworkPacket → ClientInfo → NetworkPacket) :
    cs.execute callback = cs.execute callback' ↔
      ∀ x ∈ cs.calls, callback x.1 x.2 = callback' x.1 x.2 := by
  have hrespond : cs.packetsToRead.map (cs.respond callback) =
      cs.packetsToRead.map (cs.respond callback') ↔
      ∀ x ∈ cs.calls, callback x.1 x.2 = callback' x.1 x.2 := by
    rw [List.map_inj_left]
    constructor
    · rintro h ⟨packet, info⟩ hx
      obtain ⟨hp, hinfo⟩ := (cs.mem_calls).mp hx
      simpa [respond, hinfo] using h packet hp
    · intro h packet hp
      unfold respond
      cases hinfo : cs.clientInfos.find packet.socket with
      | none => rfl
      | some info => exact h (packet, info) ((cs.mem_calls).mpr ⟨hp, hinfo⟩)
  unfold execute
  split_ifs with hr hc
  · simp [calls, List.isEmpty_iff.mp hr]
  · have hnone : cs.calls = [] := by
      simp [calls, Lib.Keyed.find, List.isEmpty_iff.mp hc]
    simp [hnone]
  · rw [← hrespond]
    simp

theorem packetsToRead_execute : (cs.execute callback).packetsToRead = [] := by
  unfold execute
  split_ifs with hr
  · exact List.isEmpty_iff.mp hr
  · rfl
  · rfl

theorem answers_of_mem (h : ∀ packet ∈ cs.packetsToRead, packet.socket ∈ cs.clientInfos) :
    cs.answers callback = cs.packetsToRead.map (cs.respond callback) := by
  rw [answers, ← List.filterMap_eq_map]
  apply List.filterMap_congr
  intro packet hp
  obtain ⟨info, hinfo⟩ := (Lib.Keyed.mem_iff_find _).mp (h packet hp)
  simp only [Function.comp_apply, respond, hinfo, Option.map_some]

theorem length_answers_lt {packet : NetworkPacket} (hp : packet ∈ cs.packetsToRead)
    (hc : packet.socket ∉ cs.clientInfos) :
    (cs.answers callback).length < cs.packetsToRead.length := by
  rw [answers, List.length_filterMap_lt_length_iff_exists]
  refine ⟨packet, hp, ?_⟩
  rw [Option.map_eq_none_iff]
  exact (Lib.Keyed.find_eq_none _).mpr hc

/-- **What `Execute` queues is the callback's answers**, if and only if there is no client
at all or every packet is from one that is there. -/
theorem execute_answers :
    ((cs.execute callback).packetsToRead = [] ∧
      (cs.execute callback).packetsToWrite = cs.packetsToWrite ++ cs.answers callback) ↔
    cs.clientInfos.entries = [] ∨ ∀ packet ∈ cs.packetsToRead, packet.socket ∈ cs.clientInfos := by
  by_cases hr : cs.packetsToRead = []
  · simp [execute, hr, answers]
  have hr' : cs.packetsToRead.isEmpty = false := by simpa using hr
  by_cases hc : cs.clientInfos.entries = []
  · have hnone : cs.answers callback = [] := by
      simp [answers, Lib.Keyed.find, hc]
    simp [execute, hr', hc, hnone]
  have hc' : cs.clientInfos.entries.isEmpty = false := by simpa using hc
  have hqueue : (cs.execute callback).packetsToWrite =
      cs.packetsToWrite ++ cs.packetsToRead.map (cs.respond callback) := by
    simp [execute, hr', hc']
  rw [hqueue, List.append_cancel_left_eq]
  constructor
  · rintro ⟨-, hanswers⟩
    right
    intro packet hp
    by_contra hgone
    have hlt := cs.length_answers_lt callback hp hgone
    rw [← hanswers, List.length_map] at hlt
    exact lt_irrefl _ hlt
  · intro h
    exact ⟨cs.packetsToRead_execute callback, (cs.answers_of_mem callback (h.resolve_left hc)).symm⟩

/-- The server has one client, whose packet waits behind that of a client which is gone. -/
def oneGone : ClientInfos :=
  { make with
    clientInfos := Lib.Keyed.insert .empty (.make 6 deadlineMaxCountDefault ⟨0, 0⟩)
    packetsToRead := [⟨5, Commands.send, [1]⟩, ⟨6, Commands.send, [2]⟩] }

/-- The request of the client that is gone is queued as its own response. -/
theorem execute_echoes :
    ¬∀ (cs : ClientInfos) (callback : NetworkPacket → ClientInfo → NetworkPacket),
      (cs.execute callback).packetsToRead = [] ∧
        (cs.execute callback).packetsToWrite = cs.packetsToWrite ++ cs.answers callback := by
  intro h
  exact absurd (h oneGone fun packet _ => packet).2 (by decide)

end ClientInfos

/-- What a call owes the packets it took: each is attempted, or left in the queue, or
dropped behind an earlier packet for the same socket that found the peer gone. `closed` are
the sockets of the packets that did. -/
inductive Accounted (b : Build) : List ℤ → List NetworkPacket → List (List SendEvent) →
    List NetworkPacket → List NetworkPacket → Prop where
  | nil (closed : List ℤ) (sends : List (List SendEvent)) : Accounted b closed [] sends [] []
  | attempted {closed packets sends attempted left} (packet : NetworkPacket) {sent : Sent}
      (hs : sendRaw b (packet.marshall b.order) (sends.headD []) = .ok sent)
      (h : Accounted b (if sent.result.socketClosed then packet.socket :: closed else closed)
        packets sends.tail attempted left) :
      Accounted b closed (packet :: packets) sends (packet :: attempted) left
  | left {closed packets sends attempted left} (packet : NetworkPacket)
      (h : Accounted b closed packets sends.tail attempted left) :
      Accounted b closed (packet :: packets) sends attempted (packet :: left)
  | dropped {closed packets sends attempted left} (packet : NetworkPacket)
      (hc : packet.socket ∈ closed) (h : Accounted b closed packets sends.tail attempted left) :
      Accounted b closed (packet :: packets) sends attempted left

/-- Behind a packet whose `send` finds the peer gone, only packets for the same socket
are queued. -/
def Harmless (b : Build) (packets : List NetworkPacket) (sends : List (List SendEvent)) : Prop :=
  ∀ before packet behind sent, packets = before ++ packet :: behind →
    sendRaw b (packet.marshall b.order) (sends.getD before.length []) = .ok sent →
    sent.result.socketClosed = true → ∀ other ∈ behind, other.socket = packet.socket

section Write

variable {b : Build} {closed : List ℤ} {packets attempted : List NetworkPacket}
  {sends : List (List SendEvent)}

/-- Nothing attempted and nothing left: all of it was to be dropped. -/
theorem accounted_none : Accounted b closed packets sends [] [] ↔
    ∀ packet ∈ packets, packet.socket ∈ closed := by
  induction packets generalizing sends with
  | nil => exact ⟨fun _ => by simp, fun _ => .nil _ _⟩
  | cons packet packets ih =>
    rw [List.forall_mem_cons]
    constructor
    · intro h
      cases h with
      | dropped _ hc h => exact ⟨hc, ih.mp h⟩
    · intro h
      exact .dropped packet h.1 (ih.mpr h.2)

theorem getD_succ_tail (sends : List (List SendEvent)) (i : ℕ) :
    sends.getD (i + 1) [] = sends.tail.getD i [] := by
  cases sends <;> simp

theorem harmless_cons_sent {packet : NetworkPacket} {sent : Sent}
    (hs : sendRaw b (packet.marshall b.order) (sends.headD []) = .ok sent)
    (hc : sent.result.socketClosed = false) :
    Harmless b (packet :: packets) sends ↔ Harmless b packets sends.tail := by
  constructor
  · intro h before p behind sent' he
    rw [← getD_succ_tail]
    exact h (packet :: before) p behind sent' (by rw [he]; rfl)
  · intro h before p behind sent' he hs' hc'
    cases before with
    | nil =>
      cases he
      rw [List.length_nil, ← List.headD_eq_getD, hs] at hs'
      cases hs'
      rw [hc] at hc'
      cases hc'
    | cons _ before =>
      cases he
      rw [List.length_cons, getD_succ_tail] at hs'
      exact h before p behind sent' rfl hs' hc'

theorem harmless_cons_closed {packet : NetworkPacket} {sent : Sent}
    (hs : sendRaw b (packet.marshall b.order) (sends.headD []) = .ok sent)
    (hc : sent.result.socketClosed = true) :
    Harmless b (packet :: packets) sends ↔ ∀ other ∈ packets, other.socket = packet.socket := by
  constructor
  · intro h
    exact h [] packet packets sent rfl (by rw [List.length_nil, ← List.headD_eq_getD]; exact hs) hc
  · intro h before p behind sent' he _ _ other ho
    cases before with
    | nil =>
      cases he
      exact h other ho
    | cons _ before =>
      cases he
      rw [h other (by simp [ho]), h p (by simp)]

theorem writeLoop_accounts {r : Option ℤ}
    (h : ClientInfos.writeLoop b packets sends = (attempted, .ok r)) :
    Accounted b [] packets sends attempted [] ↔ Harmless b packets sends := by
  induction packets generalizing sends attempted with
  | nil =>
    cases h
    exact ⟨fun _ before p behind _ he => by simp at he, fun _ => .nil _ _⟩
  | cons packet packets ih =>
    unfold ClientInfos.writeLoop at h
    rcases hs : sendRaw b (packet.marshall b.order) (sends.headD []) with stop | sent
    · rw [hs] at h
      cases h
    rw [hs] at h
    dsimp only at h
    split_ifs at h with hc
    · cases h
      rw [harmless_cons_closed hs hc]
      constructor
      · intro ha
        cases ha with
        | attempted _ hs' ha =>
          rw [hs] at hs'
          cases hs'
          rw [if_pos hc, accounted_none] at ha
          simpa using ha
        | dropped _ hd _ => cases hd
      · intro ho
        refine .attempted packet hs ?_
        rw [if_pos hc, accounted_none]
        simpa using ho
    · obtain ⟨rest, r', hrest⟩ : ∃ rest r', ClientInfos.writeLoop b packets sends.tail = (rest, r') :=
        ⟨_, _, rfl⟩
      rw [hrest] at h
      cases h
      rw [harmless_cons_sent hs (by simpa using hc), ← ih hrest]
      constructor
      · intro ha
        cases ha with
        | attempted _ hs' ha =>
          rw [hs] at hs'
          cases hs'
          rwa [if_neg hc] at ha
        | dropped _ hd _ => cases hd
      · intro ha
        refine .attempted packet hs ?_
        rwa [if_neg hc]

/-- **A call that returns has accounted for every packet if and only if none of another
socket was queued behind the one that found its peer gone.** -/
theorem write_accounts {cs cs' : ClientInfos} {r : Option ℤ}
    (h : cs.write b sends = (attempted, .ok r, cs')) :
    Accounted b [] cs.packetsToWrite sends attempted cs'.packetsToWrite ↔
      Harmless b cs.packetsToWrite sends := by
  obtain ⟨a, r', hl⟩ : ∃ a r', ClientInfos.writeLoop b cs.packetsToWrite sends = (a, r') :=
    ⟨_, _, rfl⟩
  rw [ClientInfos.write, hl] at h
  cases h
  exact writeLoop_accounts hl

end Write

/-- Two answers that wait, for different clients. -/
def twoAnswers : ClientInfos :=
  { ClientInfos.make with packetsToWrite := [⟨5, Commands.send, [1]⟩, ⟨6, Commands.send, [2]⟩] }

theorem write_accounts_sent :
    Accounted ⟨true, .little⟩ [] twoAnswers.packetsToWrite [] twoAnswers.packetsToWrite
        ClientInfos.make.packetsToWrite ↔
      Harmless ⟨true, .little⟩ twoAnswers.packetsToWrite [] :=
  write_accounts (show twoAnswers.write _ [] = (_, .ok none, .make) from rfl)

/-- The first peer is gone, and the second client never gets its answer. -/
theorem write_loses :
    ¬∀ (b : Build) (cs cs' : ClientInfos) (sends : List (List SendEvent))
      (attempted : List NetworkPacket) (r : Option ℤ), cs.write b sends = (attempted, .ok r, cs') →
      Accounted b [] cs.packetsToWrite sends attempted cs'.packetsToWrite := by
  intro h
  have ha := h ⟨true, .little⟩ twoAnswers .make [[.fail .epipe]] [⟨5, Commands.send, [1]⟩] (some 5) rfl
  cases ha with
  | attempted _ hs ha =>
    have hc : (⟨6, Commands.send, [2]⟩ : NetworkPacket).socket ∈ [(5 : ℤ)] := by
      cases hs
      exact accounted_none.mp ha _ (by simp)
    simp at hc
  | dropped _ hd _ => cases hd

end PollServer
