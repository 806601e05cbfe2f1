import PollServer.Read.SingleShot

/-! The single-shot read of packets that arrive in pieces. `Delivers` is one way in which
the kernel hands some bytes to one receive, and `Delivered` one way in which it hands the
packets of a list to the receives that read them. -/

namespace PollServer

open Lib StopM NetworkPacket ReadM

/-- The bytes come in chunks, and `retries` times nothing is there yet. -/
inductive Delivers : ℕ → List Byte → List RecvEvent → Prop where
  | last {bs} (hb : bs ≠ []) : Delivers 0 bs [.arrive bs]
  | chunk {retries bs rest events} (hb : bs ≠ []) (h : Delivers retries rest events) :
      Delivers retries (bs ++ rest) (.arrive bs :: events)
  | again {retries bytes events} (h : Delivers retries bytes events) :
      Delivers (retries + 1) bytes (.fail .eagain :: events)

/-- The length field and the payload of every packet are delivered with less than 25
retries each. -/
inductive Delivered (order : ByteOrder) : List NetworkPacket → List RecvEvent → Prop where
  | nil : Delivered order [] []
  | cons {p ps r r' header payload rest}
      (hh : Delivers r (sizeBuffer (hostToNetwork order p.size)) header) (hr : r < 25)
      (hp : Delivers r' (p.command ++ p.data) payload) (hr' : r' < 25)
      (hps : Delivered order ps rest) :
      Delivered order (p :: ps) (header ++ (payload ++ rest))

/-- All that the kernel is going to hand out. -/
def arrived : List RecvEvent → List Byte
  | [] => []
  | .arrive bs :: events => bs ++ arrived events
  | .fail _ :: events => arrived events

theorem arrived_append (events events' : List RecvEvent) :
    arrived (events ++ events') = arrived events ++ arrived events' := by
  induction events with
  | nil => rfl
  | cons event events ih =>
    cases event with
    | arrive bs => simp [arrived, ih]
    | fail errorCode => simpa [arrived] using ih

theorem arrived_delivers {retries : ℕ} {bytes : List Byte} {events : List RecvEvent}
    (h : Delivers retries bytes events) : arrived events = bytes := by
  induction h with
  | last => simp [arrived]
  | chunk _ _ ih => simp [arrived, ih]
  | again _ ih => simpa [arrived] using ih

/-- The bytes of the packets, as `Marshall` puts them on the wire. -/
def wire (order : ByteOrder) (ps : List NetworkPacket) : List Byte :=
  (ps.map (marshall order)).flatten

theorem arrived_delivered {order : ByteOrder} {ps : List NetworkPacket} {events : List RecvEvent}
    (h : Delivered order ps events) : arrived events = wire order ps := by
  induction h with
  | nil => rfl
  | cons hh _ hp _ _ ih =>
    rw [arrived_append, arrived_append, arrived_delivers hh, arrived_delivers hp, ih]
    simp [wire, marshall]

/-- A retry after `EAGAIN`, of which five make a major failure. -/
theorem retry_eagain (b : Build) {v : Attempt} (ha : v.asyncFailCounter < 5)
    (hm : 5 * v.majorFailCount + v.asyncFailCounter + 1 < 25) :
    ∃ v', retry b .eagain v = .inr v' ∧ v'.asyncFailCounter < 5 ∧
      5 * v'.majorFailCount + v'.asyncFailCounter = 5 * v.majorFailCount + v.asyncFailCounter + 1 := by
  by_cases h5 : 5 ≤ v.asyncFailCounter + 1
  · refine ⟨{ v with asyncFailCounter := 0, majorFailCount := v.majorFailCount + 1 }, ?_, by simp, ?_⟩
    · have hlt : ¬5 ≤ v.majorFailCount + 1 := by omega
      simp [retry, handleError, assert, bind, Except.bind, pure, Except.pure, h5, hlt]
    · dsimp only
      omega
  · refine ⟨{ v with asyncFailCounter := v.asyncFailCounter + 1 }, ?_, by dsimp only; omega, ?_⟩
    · have hlt : ¬5 ≤ v.majorFailCount := by omega
      simp [retry, handleError, assert, bind, Except.bind, pure, Except.pure, h5, hlt]
    · dsimp only
      omega

theorem offer_done (b : Build) (events : List RecvEvent) (v : Attempt) :
    offer b 0 events v = ⟨[], .complete, events, []⟩ := by
  cases events <;> simp [offer]

theorem Delivers.ne_nil {retries : ℕ} {bytes : List Byte} {events : List RecvEvent}
    (h : Delivers retries bytes events) : bytes ≠ [] := by
  induction h with
  | last hb => exact hb
  | chunk hb => simp [hb]
  | again _ ih => exact ih

/-- **A delivery is received**, whatever its chunks are. -/
theorem offer_delivers (b : Build) {retries : ℕ} {bytes : List Byte} {events : List RecvEvent}
    (h : Delivers retries bytes events) (rest : List RecvEvent) (v : Attempt)
    (ha : v.asyncFailCounter < 5)
    (hr : 5 * v.majorFailCount + v.asyncFailCounter + retries < 25) :
    (offer b bytes.length (events ++ rest) v).bytes = bytes ∧
      (offer b bytes.length (events ++ rest) v).ending = .complete ∧
      (offer b bytes.length (events ++ rest) v).rest = rest := by
  induction h generalizing v with
  | @last bs hb =>
    have h0 : bs.length ≠ 0 := by simpa using hb
    simp [offer, h0, hb, offer_done]
  | @chunk retries bs more events hb h ih =>
    have h0 : (bs ++ more).length ≠ 0 := by simp [hb]
    have hlt : ¬(bs ++ more).length < bs.length := by simp
    have hsub : (bs ++ more).length - bs.length = more.length := by simp
    obtain ⟨h1, h2, h3⟩ := ih v ha hr
    rw [List.cons_append, offer, if_neg h0]
    simp only [if_neg hb, if_neg hlt, hsub, Offer.cons_bytes, Offer.cons_ending, Offer.cons_rest]
    exact ⟨by rw [h1], h2, h3⟩
  | @again retries bytes events h ih =>
    have h0 : bytes.length ≠ 0 := by simpa using h.ne_nil
    obtain ⟨v', he, ha', hc⟩ := retry_eagain b ha (by omega)
    obtain ⟨h1, h2, h3⟩ := ih v' ha' (by omega)
    rw [List.cons_append, offer, if_neg h0]
    simp only [he, Offer.cons_bytes, Offer.cons_ending, Offer.cons_rest, List.nil_append]
    exact ⟨h1, h2, h3⟩

/-- A packet with a whole command, of a size that a buffer of `n` bytes takes. -/
structure Fits (n : ℕ) (p : NetworkPacket) : Prop where
  command : p.command.length = commandSize
  size : p.command.length + p.data.length < n

section SingleShot

variable {n : ℕ} (b : Build) (socket : ℤ)

theorem front_payload {p : NetworkPacket} (hc : p.command.length = commandSize) {k : ℕ}
    (hk : k = (p.command ++ p.data).length) :
    front socket k (p.command ++ p.data) = { p with socket := socket } := by
  rw [hk, front, List.take_length, List.take_left' hc, List.drop_left' hc]

theorem front_overwrite {l bs : List Byte} {k : ℕ} (hc : commandSize ≤ bs.length) (hk : k = bs.length) :
    front socket k (overwrite l 0 bs) = front socket k bs := by
  simp only [front, overwrite, List.take_zero, List.nil_append]
  rw [List.take_append_of_le_length hc, List.take_append_of_le_length hk.le]

/-- A receive of `need` bytes gets `bytes` and leaves `rest`. -/
structure Gives (need : ℕ) (events : List RecvEvent) (bytes : List Byte) (rest : List RecvEvent) :
    Prop where
  bytes : (offer b need events {}).bytes = bytes
  ending : (offer b need events {}).ending = .complete
  rest : (offer b need events {}).rest = rest

theorem Delivers.gives {retries : ℕ} {bytes : List Byte} {events : List RecvEvent}
    (h : Delivers retries bytes events) (hr : retries < 25) (rest : List RecvEvent) :
    Gives b bytes.length (events ++ rest) bytes rest := by
  obtain ⟨h1, h2, h3⟩ := offer_delivers b h rest {} (by decide) (by simpa using hr)
  exact ⟨h1, h2, h3⟩

theorem size_toSizeT {p : NetworkPacket} (h : p.command.length + p.data.length < 2 ^ 15) :
    p.size.toSizeT = (p.command ++ p.data).length := by
  rw [NetworkPacket.size, toSizeT_ofNat h, List.length_append]

theorem lengthOf_sizeBuffer {p : NetworkPacket} (h : p.command.length + p.data.length < 2 ^ 15)
    (l : List Byte) : lengthOf b (sizeBuffer (hostToNetwork b.order p.size) ++ l) =
      (p.command ++ p.data).length := by
  rw [lengthOf, List.take_append_of_le_length (length_sizeBuffer _).ge,
    List.take_of_length_le (length_sizeBuffer _).le, packetSizeOf_sizeBuffer, size_toSizeT h]

/-- **One call reads one packet** when its two receives get the length field and the
payload. -/
theorem readSingleShot_packet {s : ReadState n} (hn : n ≤ 2 ^ 15) {p : NetworkPacket}
    (hp : Fits n p) {events rest : List RecvEvent}
    (hh : Gives b sizeBytes s.inb.events (sizeBuffer (hostToNetwork b.order p.size)) events)
    (hd : Gives b (p.command ++ p.data).length events (p.command ++ p.data) rest) :
    Ends (readSingleShot b socket) s (.ok { read := true }) rest
      ((s.session.count.decoded (p.command ++ p.data).length).dispatch socket
        { p with socket := socket }) := by
  obtain ⟨hc, hsize⟩ := hp
  have hpay : (p.command ++ p.data).length = p.command.length + p.data.length := List.length_append
  have hc4 : commandSize = 4 := rfl
  have hne : (offer b sizeBytes s.inb.events {}).bytes ≠ [] := by
    rw [hh.bytes, ← List.length_pos_iff, length_sizeBuffer]
    decide
  have hfit : (offer b sizeBytes s.inb.events {}).bytes.length ≤ n := by
    rw [hh.bytes, length_sizeBuffer, sizeBytes]
    omega
  obtain ⟨s1, hrun, hh1, hq, -⟩ := readSingleShot_headed b socket hfit ⟨hne, Or.inl hh.ending⟩
    (by rw [sizeBytes]; omega)
  rw [hh.bytes, hh.rest] at hh1
  rw [hh.bytes, Session.headed] at hq
  rw [hh.bytes] at hrun
  have hl : lengthOf b (overwrite s.inb.buffer.arr 0 (sizeBuffer (hostToNetwork b.order p.size))) =
      (p.command ++ p.data).length := by
    simp only [overwrite, List.take_zero, List.nil_append]
    exact lengthOf_sizeBuffer b (by omega) _
  rw [hl] at hrun hq
  have hne' : (offer b (p.command ++ p.data).length events {}).bytes ≠ [] := by
    rw [hd.bytes, ← List.length_pos_iff]
    omega
  have hbuilt := payloadRead_built b socket hh1 ⟨p.size, size_toSizeT (by omega)⟩
    ⟨hne', Or.inl hd.ending⟩ (by omega) (by omega) (fun _ => by omega)
  rw [hd.bytes, hd.rest, hq, front_overwrite socket (by omega) rfl, front_payload socket hc rfl] at hbuilt
  exact hbuilt.of_eq hrun

/-- The state after `k` calls. -/
def afterCalls (m : ReadM n ClientPollResult) : ℕ → ReadState n → ReadState n
  | 0, s => s
  | k + 1, s => afterCalls m k (m s).2

/-- **Fragmentation does not show.** However the packets of `ps` are delivered, call `k`
takes exactly the bytes of packet `k`, counts it once, acts on it and does nothing else, and asks
for no termination. -/
theorem readSingleShot_fragments (hn : n ≤ 2 ^ 15) {ps : List NetworkPacket}
    {events tail : List RecvEvent} (hps : Delivered b.order ps events) (hfits : ∀ p ∈ ps, Fits n p)
    {s : ReadState n} (hs : s.inb.events = events ++ tail) (k : ℕ) (hk : k < ps.length) :
    let before := afterCalls (readSingleShot b socket) k s
    let after := (readSingleShot b socket before).2
    (readSingleShot b socket before).1 = .ok { terminate := false, read := true } ∧
      arrived before.inb.events = marshall b.order ps[k] ++ arrived after.inb.events ∧
      arrived after.inb.events = wire b.order (ps.drop (k + 1)) ++ arrived tail ∧
      after.session = (before.session.count.decoded (ps[k].command ++ ps[k].data).length).dispatch
        socket { ps[k] with socket := socket } ∧
      after.session.readList = before.session.readList ++
        (if ps[k].command = Commands.send then [{ ps[k] with socket := socket }] else []) ∧
      after.session.dispatched = before.session.dispatched ++ [{ ps[k] with socket := socket }] ∧
      after.session.clientInfo.deadline =
        before.session.clientInfo.deadline.increment (before.session.clock before.session.ticks) := by
  induction hps generalizing s k with
  | nil => simp at hk
  | @cons p ps r r' header payload rest hh hr hp hr' hrest ih =>
    rw [List.append_assoc, List.append_assoc] at hs
    have hheader := hh.gives b hr (payload ++ (rest ++ tail))
    rw [length_sizeBuffer, ← hs] at hheader
    have hends := readSingleShot_packet b socket hn (hfits p (by simp)) hheader (hp.gives b hr' _)
    cases k with
    | zero =>
      dsimp only [afterCalls]
      refine ⟨hends.out, ?_, ?_, hends.session, ?_, ?_, ?_⟩
      · rw [hs, hends.events, arrived_append, arrived_append, arrived_delivers hh, arrived_delivers hp]
        simp [marshall]
      · rw [hends.events, arrived_append, arrived_delivered hrest]
        rfl
      · rw [hends.session, Session.readList_dispatch]
        rfl
      · rw [hends.session, Session.dispatched_dispatch]
        rfl
      · rw [hends.session, Session.deadline_dispatch]
        rfl
    | succ k =>
      exact ih (fun q hq => hfits q (by simp [hq])) hends.events k (by simpa using hk)

end SingleShot

/-- A `SEND` of one byte, in four chunks and with two retries. -/
theorem readSingleShot_fragments_send :
    let s := sampleState [.arrive [0], .fail .eagain, .arrive [5], .arrive [83, 69], .fail .eagain,
      .arrive [78, 68, 65]]
    (readSingleShot ⟨true, .little⟩ 5 s).1 = .ok { read := true } ∧
      (readSingleShot ⟨true, .little⟩ 5 s).2.session.readList = [⟨5, Commands.send, [65]⟩] ∧
      (readSingleShot ⟨true, .little⟩ 5 s).2.session.dispatched = [⟨5, Commands.send, [65]⟩] := by
  have hheader : Delivers 1 (sizeBuffer (hostToNetwork .little (size ⟨5, Commands.send, [65]⟩)))
      [.arrive [0], .fail .eagain, .arrive [5]] :=
    .chunk (List.cons_ne_nil 0 []) (.again (.last (List.cons_ne_nil 5 [])))
  have hpayload : Delivers 1 (Commands.send ++ [65])
      [.arrive [83, 69], .fail .eagain, .arrive [78, 68, 65]] :=
    .chunk (List.cons_ne_nil 83 [69]) (.again (.last (List.cons_ne_nil 78 [68, 65])))
  have hfits : ∀ p ∈ [(⟨5, Commands.send, [65]⟩ : NetworkPacket)], Fits 106 p := by
    simp only [List.mem_singleton, forall_eq]
    exact ⟨rfl, by decide⟩
  intro s
  have h := readSingleShot_fragments (s := s) ⟨true, .little⟩ 5 (by decide)
    (.cons hheader (by decide) hpayload (by decide) .nil) hfits (List.append_nil _).symm 0 (by decide)
  exact ⟨h.1, h.2.2.2.2.1, h.2.2.2.2.2.1⟩

end PollServer
