import PollServer.Lib.Runs
import PollServer.Read.Bounds
import PollServer.Read.Stream

/-! Reads of a client that time out. One that does so in front of the length field can be
made again; one that does so in front of the payload has taken the length field with it. -/

namespace PollServer

open Lib StopM NetworkPacket

section Retry

variable {n : ℕ} {b : Build} {socket : ℤ} {timeout : ℕ} {w w' : Wire n} {p : NetworkPacket}

/-- What a receive into the start of the array comes to. -/
inductive Received (b : Build) (size timeout : ℕ) (w : Wire n) (r : Result) (w' : Wire n) : Prop
  | timedOut (hp : passes timeout w.polls = false) (hfail : r.isFailure = true)
      (hpoll : r.pollFailure = true) (hinb : w'.inb = w.inb)
  | refused (hp : passes timeout w.polls = true) (hr : (offer b size w.inb.events {}).refused)
      (hfail : r.isFailure = true) (hpoll : r.pollFailure = false)
  | got (hp : passes timeout w.polls = true) (ha : (offer b size w.inb.events {}).accepted)
      (hfail : r.isFailure = false) (hcount : r.noOfBytes = (offer b size w.inb.events {}).bytes.length)
      (hn : (offer b size w.inb.events {}).bytes.length ≤ n) (ho : w'.inb.buffer.offset = 0)
      (harr : w'.inb.buffer.arr = overwrite w.inb.buffer.arr 0 (offer b size w.inb.events {}).bytes)
      (hevents : w'.inb.events = (offer b size w.inb.events {}).rest)
      (hpolls : w'.polls = pollsAfter timeout w.polls)

theorem pollRecvFixedBytes_cases {size : ℕ} (hs : size < 2 ^ 64) (ho : w.inb.buffer.offset = 0)
    {r : Result} (h : pollRecvFixedBytes b size timeout w = (.ok r, w')) :
    Received b size timeout w r w' := by
  by_cases hp : passes timeout w.polls = true
  swap
  · have hp' : passes timeout w.polls = false := by simpa using hp
    obtain ⟨r', polls, hrecv, hfail⟩ := pollRecvFixedBytes_fails b timeout size hp'
    rw [hrecv] at h
    obtain ⟨rfl, rfl⟩ := Prod.mk.inj h
    exact .timedOut hp' (hfail r rfl).1 (hfail r rfl).2 rfl
  rw [pollRecvFixedBytes_passes b timeout size hp] at h
  obtain ⟨hr, rfl⟩ := Prod.mk.inj h
  by_cases hn : (offer b size w.inb.events {}).bytes.length ≤ n
  swap
  · rw [recvFixedBytes_overrun b hs w.inb (by omega) (by omega)] at hr
    cases hr
  rw [recvFixedBytes_eq b hs w.inb (by omega)] at hr ⊢
  dsimp only at hr ⊢
  have hpoll := Offer.result_pollFailure hr
  rcases Offer.accepted_or (offer b size w.inb.events {}) with ha | href | ha
  · rw [Offer.result_aborted ha] at hr
    cases hr
  · obtain ⟨r', hr', hfail⟩ := Offer.result_refused href
    rw [hr] at hr'
    cases hr'
    exact .refused hp href hfail hpoll
  · obtain ⟨r', hr', hfail, hcount⟩ := Offer.result_accepted ha
    rw [hr] at hr'
    cases hr'
    refine .got hp ha hfail hcount hn (by simpa using ho) ?_ rfl rfl
    dsimp only
    rw [Buffer.stored_arr _ (by omega), ho]

/-- The length field came in time, and the payload did not. -/
def Interrupted (b : Build) (timeout : ℕ) (w : Wire n) : Prop :=
  passes timeout w.polls = true ∧ (offer b sizeBytes w.inb.events {}).accepted ∧
    passes timeout (pollsAfter timeout w.polls) = false

/-- Nothing arrived in time for one of the two receives of a call. -/
def TimedOut (b : Build) (timeout : ℕ) (w : Wire n) : Prop :=
  passes timeout w.polls = false ∨ Interrupted b timeout w

theorem failedPacket_empty {recvData : Result} (h : recvData.pollFailure = true) :
    failedPacket socket recvData = ⟨socket, Commands.empty, []⟩ := if_pos h

theorem failedPacket_closed {recvData : Result} (h : recvData.pollFailure = false) :
    failedPacket socket recvData = ⟨socket, Commands.MajorErrors.socketClosed, []⟩ := by
  rw [failedPacket, if_neg (by simp [h])]

theorem arrived_offer_length (b : Build) (need : ℕ) (events : List RecvEvent) :
    (arrived events).length = (offer b need events {}).bytes.length +
      (arrived (offer b need events {}).rest).length := by
  rw [arrived_offer b need events {}, List.length_append]

/-- The second phase of a call that returns: it finds nothing in time, or the peer gone, or
it builds a packet over what it received. -/
theorem readPayload_phases {v : PacketSize} (ho : w.inb.buffer.offset = 0)
    (h : readPayload b socket timeout v w = (.ok p, w')) :
    (passes timeout w.polls = false ∧ p = ⟨socket, Commands.empty, []⟩ ∧ w'.inb = w.inb) ∨
    (passes timeout w.polls = true ∧ p.command = Commands.MajorErrors.socketClosed) ∨
    (passes timeout w.polls = true ∧ (offer b v.toSizeT w.inb.events {}).accepted ∧
      (offer b v.toSizeT w.inb.events {}).bytes.length ≤ n ∧ w'.inb.buffer.offset = 0 ∧
      w'.inb.events = (offer b v.toSizeT w.inb.events {}).rest ∧
      w'.inb.buffer.arr = overwrite w.inb.buffer.arr 0 (offer b v.toSizeT w.inb.events {}).bytes ∧
      ofBuffer b socket w'.inb.buffer v = .ok p) := by
  rcases hassert : assert b (v.toSizeT < w.inb.buffer.size) with stop | _
  · rw [readPayload, bind_error (show ask _ w = (.error stop, w) by simp only [ask, hassert])] at h
    cases h
  rw [readPayload, bind_ok (show ask _ w = (.ok (), w) by simp only [ask, hassert])] at h
  rcases hrecv : pollRecvFixedBytes b v.toSizeT timeout w with ⟨stop | r, w1⟩
  · rw [bind_error hrecv] at h
    cases h
  rw [bind_ok hrecv] at h
  rcases pollRecvFixedBytes_cases (show v.toSizeT < 2 ^ 64 from BitVec.isLt _) ho hrecv with
    ⟨hp, hfail, hpoll, hinb⟩ | ⟨hp, -, hfail, hpoll⟩ | ⟨hp, ha, hfail, -, hn, ho1, harr, hevents, -⟩
  · left
    rw [if_pos hfail, failedPacket_empty hpoll] at h
    obtain ⟨hok, rfl⟩ := Prod.mk.inj h
    exact ⟨hp, (Except.ok.inj hok).symm, hinb⟩
  · right
    left
    rw [if_pos hfail, failedPacket_closed hpoll] at h
    exact ⟨hp, by rw [← Except.ok.inj (Prod.mk.inj h).1]⟩
  · right
    right
    rw [if_neg (by simp [hfail])] at h
    rcases hcount : assert b (r.noOfBytes = v.toSizeT) with stop | _
    · rw [bind_error (show ask _ w1 = (.error stop, w1) by simp only [ask, hcount])] at h
      cases h
    rw [bind_ok (show ask _ w1 = (.ok (), w1) by simp only [ask, hcount])] at h
    obtain ⟨hbuilt, rfl⟩ := Prod.mk.inj h
    exact ⟨hp, ha, hn, ho1, hevents, harr, hbuilt⟩

theorem readPacket_phases (h2 : sizeBytes ≤ n) (ho : w.inb.buffer.offset = 0)
    (h : readPacket b socket timeout w = (.ok p, w')) :
    (passes timeout w.polls = false ∧ p = ⟨socket, Commands.empty, []⟩ ∧ w'.inb = w.inb) ∨
    (passes timeout w.polls = true ∧ ¬(offer b sizeBytes w.inb.events {}).accepted ∧
      p.command = Commands.MajorErrors.socketClosed) ∨
    (passes timeout w.polls = true ∧ (offer b sizeBytes w.inb.events {}).accepted ∧ ∃ w1 : Wire n,
      w1.inb.buffer.offset = 0 ∧ w1.inb.events = (offer b sizeBytes w.inb.events {}).rest ∧
      w1.polls = pollsAfter timeout w.polls ∧
      w1.inb.buffer.arr = overwrite w.inb.buffer.arr 0 (offer b sizeBytes w.inb.events {}).bytes ∧
      readPayload b socket timeout (packetSizeOf b.order (w1.inb.buffer.arr.take sizeBytes)) w1 =
        (.ok p, w')) := by
  rcases hrecv : pollRecvFixedBytes b sizeBytes timeout w with ⟨stop | r, w1⟩
  · rw [readPacket, bind_error hrecv] at h
    cases h
  rcases pollRecvFixedBytes_cases (by decide) ho hrecv with
    ⟨hp, hfail, hpoll, hinb⟩ | ⟨hp, hr, hfail, hpoll⟩ | ⟨hp, ha, hfail, -, -, ho1, harr, hevents, hpolls⟩
  · left
    rw [readPacket, bind_ok hrecv, if_pos hfail, failedPacket_empty hpoll] at h
    obtain ⟨hok, rfl⟩ := Prod.mk.inj h
    exact ⟨hp, (Except.ok.inj hok).symm, hinb⟩
  · right
    left
    rw [readPacket, bind_ok hrecv, if_pos hfail, failedPacket_closed hpoll] at h
    exact ⟨hp, fun ha => Offer.not_refused ha hr, by rw [← Except.ok.inj (Prod.mk.inj h).1]⟩
  · right
    right
    rw [readPacket_headed b socket timeout hrecv hfail ho1 h2] at h
    exact ⟨hp, ha, w1, ho1, hevents, hpolls, harr, h⟩

/-- **What a call that timed out has taken.** Nothing, if and only if it was not
interrupted between the length field and the payload. -/
theorem readPacket_timedOut (h2 : sizeBytes ≤ n) (ho : w.inb.buffer.offset = 0)
    (h : readPacket b socket timeout w = (.ok p, w')) (ht : TimedOut b timeout w) :
    p = ⟨socket, Commands.empty, []⟩ ∧
      (arrived w'.inb.events = arrived w.inb.events ↔ ¬Interrupted b timeout w) := by
  rcases readPacket_phases h2 ho h with ⟨hp, hempty, hinb⟩ | ⟨hp, ha, -⟩ | ⟨hp, ha, w1, ho1, he1, hp1, -, hrest⟩
  · refine ⟨hempty, iff_of_true (by rw [hinb]) fun hi => ?_⟩
    rw [hi.1] at hp
    cases hp
  · rcases ht with hp' | hi
    · rw [hp] at hp'
      cases hp'
    · exact absurd hi.2.1 ha
  · have hi : Interrupted b timeout w := ht.resolve_left (by simp [hp])
    obtain ⟨-, hempty, hinb⟩ := (readPayload_phases ho1 hrest).resolve_right fun hpassed => by
      have hp2 : passes timeout w1.polls = true := hpassed.elim And.left And.left
      rw [hp1, hi.2.2] at hp2
      simp at hp2
    refine ⟨hempty, iff_of_false (fun heq => ?_) (fun hn => hn (ht.resolve_left (by simp [hp])))⟩
    have hlen := arrived_offer_length b sizeBytes w.inb.events
    have hpos := List.length_pos_iff.mpr ha.1
    rw [hinb, he1] at heq
    rw [← heq] at hlen
    omega

/-- **The condition under which a call takes whole packets only**: once the length field is
let through, the payload is, and neither receive breaks off. -/
def Undivided (b : Build) (timeout : ℕ) (w : Wire n) : Prop :=
  passes timeout w.polls = true → Unbroken b w.inb.events ∧ ¬Interrupted b timeout w

theorem readPayload_whole {v : PacketSize} (ho : w.inb.buffer.offset = 0)
    (hp : passes timeout w.polls = true) (hb : ¬BreaksOff b v.toSizeT w.inb.events)
    (h : readPayload b socket timeout v w = (.ok p, w'))
    (hclosed : p.command ≠ Commands.MajorErrors.socketClosed) {q : NetworkPacket}
    {qs : List NetworkPacket} (hq : Framed q)
    (hl : v.toSizeT < 2 ^ 63 → v.toSizeT = (payload q).length)
    (hu : arrived w.inb.events <+: payload q ++ wire b.order qs) :
    p = { q with socket := socket } ∧ w'.inb.buffer.offset = 0 ∧
      arrived w.inb.events = payload q ++ arrived w'.inb.events := by
  have hsize := w.inb.buffer.size_lt
  rcases readPayload_phases ho h with
    ⟨hp', -⟩ | ⟨-, hclose⟩ | ⟨-, ha, hn, ho1, hevents, harr, hbuilt⟩
  · simp [hp] at hp'
  · exact absurd hclose hclosed
  have hlen := offer_complete b _ _ _ (complete_of_accepted ha hb)
  have hsizeT := hl (by omega)
  have hoffer := arrived_offer b v.toSizeT w.inb.events {}
  rw [hoffer] at hu
  obtain ⟨hpayload, -⟩ := prefix_split hu (hlen.trans hsizeT)
  have hc : commandSize ≤ (payload q).length := by
    rw [payload, List.length_append, hq.command]
    omega
  have hwindow : window w'.inb.buffer.arr w'.inb.buffer.offset (payload q).length = payload q := by
    rw [harr, ho1, hpayload, window, overwrite, List.take_zero, List.nil_append, List.drop_zero,
      List.take_left' rfl]
  rw [ofBuffer_eq b socket _ hsizeT.le hc (fun _ => by omega) (by omega) hwindow, hsizeT, payload,
    front_payload socket hq.command rfl] at hbuilt
  exact ⟨(Except.ok.inj hbuilt).symm, ho1, by rw [hoffer, hevents, hpayload]⟩

/-- A call on a stream of packets times out with nothing taken, or it takes the first of them. -/
theorem readPacket_exact (h2 : sizeBytes ≤ n) (ho : w.inb.buffer.offset = 0)
    (hund : Undivided b timeout w) (h : readPacket b socket timeout w = (.ok p, w'))
    (hclosed : p.command ≠ Commands.MajorErrors.socketClosed) {ps : List NetworkPacket}
    (hps : ∀ q ∈ ps, Framed q) (hu : arrived w.inb.events <+: wire b.order ps) :
    w'.inb.buffer.offset = 0 ∧
      ((p = ⟨socket, Commands.empty, []⟩ ∧ arrived w.inb.events = arrived w'.inb.events) ∨
        ∃ q rest, p = { q with socket := socket } ∧ ps = q :: rest ∧
          arrived w.inb.events = q.marshall b.order ++ arrived w'.inb.events) := by
  rcases readPacket_phases h2 ho h with
    ⟨-, hempty, hinb⟩ | ⟨-, -, hclose⟩ | ⟨hp, ha, w1, ho1, he1, hp1, harr, hrest⟩
  · rw [hinb]
    exact ⟨ho, Or.inl ⟨hempty, rfl⟩⟩
  · exact absurd hclose hclosed
  obtain ⟨⟨hheader, hpayload⟩, hint⟩ := hund hp
  have hp2 : passes timeout w1.polls = true := by
    by_contra hp2
    rw [hp1] at hp2
    exact hint ⟨hp, ha, by simpa using hp2⟩
  have hlen := offer_complete b _ _ _ (complete_of_accepted ha hheader)
  rw [arrived_offer b sizeBytes w.inb.events {}] at hu ⊢
  obtain ⟨q, qs, rfl, hhead, hbody⟩ := front_header hu hlen.ge
  rw [List.drop_of_length_le hlen.le, List.append_nil] at hhead
  rw [List.drop_of_length_le hlen.le, List.nil_append] at hbody
  have hq := hps q List.mem_cons_self
  have htake : w1.inb.buffer.arr.take sizeBytes = (offer b sizeBytes w.inb.events {}).bytes := by
    rw [harr, overwrite, List.take_zero, List.nil_append, List.take_left' hlen]
  have hlength : (packetSizeOf b.order (w1.inb.buffer.arr.take sizeBytes)).toSizeT =
      lengthOf b (offer b sizeBytes w.inb.events {}).bytes := by
    rw [htake, lengthOf, List.take_of_length_le hlen.le]
  rw [← he1] at hbody
  obtain ⟨hpq, ho', hrest'⟩ := readPayload_whole ho1 hp2 (by rw [hlength, he1]; exact hpayload) hrest hclosed hq
    (fun hlt => by
      rw [hlength, hhead, ← List.append_nil (sizeBuffer _)] at hlt ⊢
      exact lengthOf_framed b hq hlt) hbody
  refine ⟨ho', Or.inr ⟨q, qs, hpq, rfl, ?_⟩⟩
  rw [← he1, hrest', hhead, marshall, payload]
  simp only [List.append_assoc]

theorem readPacket_whole (h2 : sizeBytes ≤ n) (ho : w.inb.buffer.offset = 0)
    (hund : Undivided b timeout w) (h : readPacket b socket timeout w = (.ok p, w'))
    (hclosed : p.command ≠ Commands.MajorErrors.socketClosed) {ps : List NetworkPacket}
    (hps : ∀ q ∈ ps, Framed q) (hu : arrived w.inb.events <+: wire b.order ps) :
    w'.inb.buffer.offset = 0 ∧ ∃ rest, arrived w'.inb.events <+: wire b.order rest ∧
      ((p = ⟨socket, Commands.empty, []⟩ ∧ ps = rest) ∨
        ∃ q, p = { q with socket := socket } ∧ ps = q :: rest) := by
  obtain ⟨ho', hcase⟩ := readPacket_exact h2 ho hund h hclosed hps hu
  refine ⟨ho', ?_⟩
  rcases hcase with ⟨hempty, harr⟩ | ⟨q, rest, hp, rfl, harr⟩
  · exact ⟨ps, harr ▸ hu, Or.inl ⟨hempty, rfl⟩⟩
  · rw [harr] at hu
    exact ⟨rest, (List.prefix_append_right_inj _).mp hu, Or.inr ⟨q, hp, rfl⟩⟩

/-- A call of `Read` that meets the condition, and that does not end the calls. -/
def Retrying (b : Build) (socket : ℤ) (timeout : ℕ) (w : Wire n) (ps : List NetworkPacket) (w' : Wire n) :
    Prop :=
  ∃ p, readPacket b socket timeout w = (.ok p, w') ∧ Undivided b timeout w ∧
    p.command ≠ Commands.MajorErrors.socketClosed ∧ ps = [p]

/-- The packets that are none of those that a time-out makes up. -/
def spoken (ps : List NetworkPacket) : List NetworkPacket := ps.filter (·.command ≠ Commands.empty)

/-- What was read is the front of the frames, and the stream stands behind it. -/
theorem retrying_invariant (h2 : sizeBytes ≤ n) (ho : w.inb.buffer.offset = 0)
    {frames : List NetworkPacket} (hframes : ∀ q ∈ frames, Framed q)
    (hu : arrived w.inb.events <+: wire b.order frames) {history : List NetworkPacket}
    (hrun : Run (Retrying b socket timeout) w history w') :
    w'.inb.buffer.offset = 0 ∧ ∃ taken rest, frames = taken ++ rest ∧
      arrived w'.inb.events <+: wire b.order rest ∧
      spoken history = spoken (taken.map fun q => { q with socket := socket }) := by
  induction hrun with
  | start => exact ⟨ho, [], frames, rfl, hu, rfl⟩
  | next _ hs ih =>
    obtain ⟨ho1, taken, rest, rfl, hu1, hspoken⟩ := ih
    obtain ⟨p, hread, hund, hclosed, rfl⟩ := hs
    obtain ⟨ho2, rest', hu2, hcase⟩ := readPacket_whole h2 ho1 hund hread hclosed
      (fun q hq => hframes q (List.mem_append_right _ hq)) hu1
    refine ⟨ho2, ?_⟩
    rcases hcase with ⟨rfl, rfl⟩ | ⟨q, rfl, rfl⟩
    · refine ⟨taken, rest, rfl, hu2, ?_⟩
      rw [← hspoken, spoken, spoken, List.filter_append]
      simp
    · refine ⟨taken ++ [q], rest', by simp, hu2, ?_⟩
      rw [spoken, List.filter_append, ← spoken, hspoken, spoken, spoken, List.map_append,
        List.filter_append]
      rfl

/-- **A read that timed out can be made again** if and only if it was not interrupted
between the length field and the payload, and with no call interrupted the packets that
were read are the front of those that were sent. -/
theorem readPacket_retryable (socket : ℤ) (timeout : ℕ) (h2 : sizeBytes ≤ n) :
    (∀ (w w' : Wire n) (p : NetworkPacket), w.inb.buffer.offset = 0 →
      readPacket b socket timeout w = (.ok p, w') → TimedOut b timeout w →
        p = ⟨socket, Commands.empty, []⟩ ∧
          (arrived w'.inb.events = arrived w.inb.events ↔ ¬Interrupted b timeout w)) ∧
    ∀ (w w' : Wire n) (frames history : List NetworkPacket), w.inb.buffer.offset = 0 →
      (∀ q ∈ frames, Framed q) → arrived w.inb.events <+: wire b.order frames →
      Run (Retrying b socket timeout) w history w' →
        spoken history <+: spoken (frames.map fun q => { q with socket := socket }) := by
  refine ⟨fun w w' p ho h ht => readPacket_timedOut h2 ho h ht, fun w w' frames history ho hf hu hrun => ?_⟩
  obtain ⟨-, taken, rest, rfl, -, hspoken⟩ := retrying_invariant h2 ho hf hu hrun
  rw [hspoken, List.map_append, spoken, spoken, List.filter_append]
  exact List.prefix_append _ _

end Retry

/-- The peer of a client with a time-out of ten sends `events`, and the polls find `polls`. -/
def sampleWire (events : List RecvEvent) (polls : List PollEvent) : Wire 106 :=
  ⟨⟨sampleBuffer, events, []⟩, polls⟩

/-- A `SEND` that comes after the first call has timed out. -/
theorem readPacket_retryable_send :
    let w := sampleWire [.arrive (0 :: 4 :: Commands.send)] [.unready, .readable, .readable]
    let w' := sampleWire [.arrive (0 :: 4 :: Commands.send)] [.readable, .readable]
    (arrived w'.inb.events = arrived w.inb.events ↔ ¬Interrupted ⟨true, .little⟩ 10 w) ∧
      spoken [⟨5, Commands.empty, []⟩, ⟨5, Commands.send, []⟩] <+: [⟨5, Commands.send, []⟩] := by
  intro w w'
  have h := readPacket_retryable (n := 106) (b := ⟨true, .little⟩) 5 10 (by decide)
  have hfirst : readPacket ⟨true, .little⟩ 5 10 w = (.ok ⟨5, Commands.empty, []⟩, w') := rfl
  have hsecond : readPacket ⟨true, .little⟩ 5 10 w' =
      (.ok ⟨5, Commands.send, []⟩, (readPacket ⟨true, .little⟩ 5 10 w').2) := Prod.ext (by decide) rfl
  have hwhole : Undivided ⟨true, .little⟩ 10 w' := fun _ =>
    ⟨⟨fun hb => absurd hb.2 (by decide), fun hb => absurd hb.2 (by decide)⟩,
      fun hi => absurd hi.2.2 (by decide)⟩
  have hframed : ∀ q ∈ [(⟨5, Commands.send, []⟩ : NetworkPacket)], Framed q := by
    simp only [List.mem_singleton, forall_eq]
    exact ⟨rfl, by decide⟩
  have htimedOut : Run (Retrying ⟨true, .little⟩ 5 10) w ([] ++ [⟨5, Commands.empty, []⟩]) w' :=
    .next .start ⟨_, hfirst, fun hp => absurd hp (by decide), by decide, rfl⟩
  have hread : Retrying ⟨true, .little⟩ 5 10 w' [⟨5, Commands.send, []⟩] _ :=
    ⟨_, hsecond, hwhole, by decide, rfl⟩
  constructor
  · exact (h.1 w w' _ rfl hfirst (Or.inl (by decide))).2
  · exact h.2 w _ [⟨5, Commands.send, []⟩] _ rfl hframed (by decide) (.next htimedOut hread)

/-- The length field is there in time and the payload is not. -/
theorem readPacket_interrupted :
    ¬∀ (n : ℕ) (b : Build) (socket : ℤ) (timeout : ℕ) (w w' : Wire n) (p : NetworkPacket),
      sizeBytes ≤ n → 0 < timeout → w.inb.buffer.offset = 0 →
      readPacket b socket timeout w = (.ok p, w') → TimedOut b timeout w →
      arrived w'.inb.events = arrived w.inb.events := by
  intro h
  have heq := h 106 ⟨true, .little⟩ 5 10 (sampleWire [.arrive [0, 4]] [.readable, .unready]) _ _
    (by decide) (by decide) rfl rfl (Or.inr ⟨rfl, by decide, rfl⟩)
  exact absurd heq (by decide)

end PollServer
