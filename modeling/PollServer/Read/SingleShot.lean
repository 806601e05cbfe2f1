import PollServer.Read.Frames

/-! The single-shot read, phase by phase: the receive of the length field, and then the
receive of the payload over it. The whole array is taken for the received bytes, as the
code reads what lies there whether it came or not. -/

namespace PollServer

open Lib StopM NetworkPacket ReadM

section SingleShot

variable {n : ℕ} (b : Build) (socket : ℤ) {s : ReadState n}

/-- The read from the payload on. -/
def payloadRead (packetSize : ℕ) : ReadM n ClientPollResult := do
  let recvResult ← receive (recvFixedBytes b packetSize true)
  if recvResult.isFailure then closeSocket
  else
    checkPacketSize b packetSize
    takePacket b socket packetSize
    return { read := true }

/-- The array `a` is all there, with the offset at its start. -/
abbrev HoldsAll (s : ReadState n) (a : List Byte) (events : List RecvEvent) : Prop :=
  a.length = n ∧ Holds s 0 a events

theorem holdsAll (s : ReadState n) (buf : Buffer n) (events : List RecvEvent)
    (reqs : List Request) (ho : buf.offset = 0) :
    HoldsAll { s with inb := ⟨buf, events, reqs⟩ } buf.arr events := by
  refine ⟨buf.length_arr, ho, by rw [buf.length_arr, Nat.zero_add], ?_, rfl⟩
  simp [window]

theorem receiveFixed_cases {a : List Byte} {events : List RecvEvent} (h : HoldsAll s a events)
    {size : ℕ} (hs : size < 2 ^ 64) :
    let off := offer b size events {}
    (n < off.bytes.length ∧ ∃ s', receive (recvFixedBytes b size true) s = (.error .outOfBounds, s') ∧
      s'.session = s.session) ∨
    (off.bytes.length ≤ n ∧ ∃ s', receive (recvFixedBytes b size true) s = (off.result 0, s') ∧
      HoldsAll s' (overwrite a 0 off.bytes) off.rest ∧ s'.session = s.session ∧
      s'.inb.requests = s.inb.requests ++ requestsAt 0 size off.asks) := by
  intro off
  have ho := h.2.offset
  have he := h.2.events
  have ha : s.inb.buffer.arr = a := by
    have hb := h.2.bytes
    rw [h.1] at hb
    rw [← hb, window, List.drop_zero, List.take_of_length_le (by rw [s.inb.buffer.length_arr])]
  by_cases hn : n < off.bytes.length
  · refine Or.inl ⟨hn, { s with inb := (recvFixedBytes b size true s.inb).2 }, ?_, rfl⟩
    have hover := recvFixedBytes_overrun b hs s.inb (by omega)
      (by rw [ho, he, Nat.zero_add]; exact hn)
    rw [receive_eq (Prod.ext hover rfl)]
  · refine Or.inr ⟨by omega, { s with inb := ⟨s.inb.buffer.stored 0 off.bytes, off.rest,
      s.inb.requests ++ requestsAt 0 size off.asks⟩ }, ?_, ?_, rfl, rfl⟩
    · have heq := recvFixedBytes_eq b hs s.inb (by rw [ho, he, Nat.zero_add]; exact not_lt.mp hn)
      rw [ho, he] at heq
      exact receive_eq heq
    · have harr : (s.inb.buffer.stored 0 off.bytes).arr = overwrite a 0 off.bytes := by
        rw [Buffer.stored_arr _ (by omega), ho, ha]
      rw [← harr]
      exact holdsAll s _ _ _ (by simpa using ho)

variable {a : List Byte} {events : List RecvEvent}

theorem payloadRead_overrun (h : HoldsAll s a events) {packetSize : ℕ} (hs : packetSize < 2 ^ 64)
    (hn : n < (offer b packetSize events {}).bytes.length) :
    (payloadRead b socket packetSize s).1 = .error .outOfBounds ∧
      (payloadRead b socket packetSize s).2.session = s.session := by
  rcases receiveFixed_cases b h hs with ⟨-, s1, hs1, hq⟩ | ⟨h', -⟩
  · rw [payloadRead, bind_error hs1]
    exact ⟨rfl, hq⟩
  · omega

theorem payloadRead_aborted (h : HoldsAll s a events) {packetSize : ℕ} (hs : packetSize < 2 ^ 64)
    (hn : (offer b packetSize events {}).bytes.length ≤ n)
    (ha : (offer b packetSize events {}).ending = .aborted) :
    Ends (payloadRead b socket packetSize) s (.error .assertion)
      (offer b packetSize events {}).rest s.session := by
  rcases receiveFixed_cases b h hs with ⟨h', -⟩ | ⟨-, s1, hs1, hh1, hq, -⟩
  · omega
  rw [Offer.result_aborted ha] at hs1
  have hrun : payloadRead b socket packetSize s = (.error .assertion, s1) := by
    rw [payloadRead, bind_error hs1]
  exact ⟨by rw [hrun], by rw [hrun]; exact hh1.2.events, by rw [hrun, hq]⟩

theorem payloadRead_refused (h : HoldsAll s a events) {packetSize : ℕ} (hs : packetSize < 2 ^ 64)
    (hn : (offer b packetSize events {}).bytes.length ≤ n)
    (hr : (offer b packetSize events {}).refused) :
    Ends (payloadRead b socket packetSize) s (.ok { terminate := true })
      (offer b packetSize events {}).rest s.session.close := by
  rcases receiveFixed_cases b h hs with ⟨h', -⟩ | ⟨-, s1, hs1, hh1, hq, -⟩
  · omega
  obtain ⟨r, hok, hfail⟩ := Offer.result_refused hr
  have hrun : payloadRead b socket packetSize s =
      (.ok { terminate := true }, { s1 with session := s1.session.close }) := by
    rw [payloadRead, bind_ok (hs1.trans (by rw [hok])), hfail]
    rfl
  exact ⟨by rw [hrun], by rw [hrun]; exact hh1.2.events, by rw [hrun, ← hq]⟩

/-- The payload is taken for the whole packet, however much of it came. -/
theorem payloadRead_accepted (h : HoldsAll s a events) {packetSize : ℕ} (hs : packetSize < 2 ^ 64)
    (hn : (offer b packetSize events {}).bytes.length ≤ n)
    (ha : (offer b packetSize events {}).accepted) : ∃ s1,
      payloadRead b socket packetSize s = (do
        checkPacketSize b packetSize
        takePacket b socket packetSize
        return { read := true } : ReadM n ClientPollResult) s1 ∧
      HoldsAll s1 (overwrite a 0 (offer b packetSize events {}).bytes)
        (offer b packetSize events {}).rest ∧ s1.session = s.session := by
  rcases receiveFixed_cases b h hs with ⟨h', -⟩ | ⟨-, s1, hs1, hh1, hq, -⟩
  · omega
  obtain ⟨r, hok, hfail, -⟩ := Offer.result_accepted ha
  refine ⟨s1, ?_, hh1, hq⟩
  rw [payloadRead, bind_ok (hs1.trans (by rw [hok])), hfail]
  rfl

theorem payloadRead_tooLarge (h : HoldsAll s a events) {packetSize : ℕ} (hs : packetSize < 2 ^ 64)
    (hn : (offer b packetSize events {}).bytes.length ≤ n)
    (ha : (offer b packetSize events {}).accepted) (hp : n ≤ packetSize) :
    Ends (payloadRead b socket packetSize) s
      (.error (if b.asserts then .assertion else .invalidArgument))
      (offer b packetSize events {}).rest s.session := by
  obtain ⟨s1, hs1, hh1, hq⟩ := payloadRead_accepted b socket h hs hn ha
  rw [bind_error (checkPacketSize_error b hp)] at hs1
  exact ⟨by rw [hs1], by rw [hs1]; exact hh1.2.events, by rw [hs1, hq]⟩

theorem payloadRead_built (h : HoldsAll s a events) {packetSize : ℕ}
    (hv : ∃ v : PacketSize, v.toSizeT = packetSize) (ha : (offer b packetSize events {}).accepted)
    (hp : packetSize < n) (hc : commandSize ≤ n) (hb : b.asserts = true → commandSize ≤ packetSize) :
    Ends (payloadRead b socket packetSize) s (.ok { read := true })
      (offer b packetSize events {}).rest
      (s.session.dispatch socket
        (front socket packetSize (overwrite a 0 (offer b packetSize events {}).bytes))) := by
  have hsize := s.inb.buffer.size_lt
  have hle := offer_length_le b packetSize events {}
  obtain ⟨s1, hs1, ⟨hl1, hh1⟩, hq⟩ := payloadRead_accepted b socket h (by omega) (by omega) ha
  obtain ⟨s2, hs2, hh2, hf2⟩ := takePacket_holds b socket hh1 (by omega) (by omega) hb hv
  rw [bind_ok (checkPacketSize_ok b hp), bind_ok hs2, pure_apply] at hs1
  rw [hq] at hf2
  exact ⟨by rw [hs1], by rw [hs1]; exact hh2.events, by rw [hs1]; exact hf2.session⟩

/-- The constructor finds no command, or its assert finds the length too small. -/
theorem ofBuffer_unbuilt (buf : Buffer n) {v : PacketSize}
    (hc : n < buf.offset + commandSize ∨ (b.asserts = true ∧ v.toSizeT < commandSize)) :
    ofBuffer b socket buf v = .error
      (if b.asserts = true ∧ v.toSizeT < commandSize then .assertion else .outOfBounds) := by
  by_cases ha : b.asserts = true ∧ v.toSizeT < commandSize
  · have hassert : assert b (commandSize ≤ v.toSizeT) = .error .assertion :=
      if_pos ⟨ha.1, by omega⟩
    simp only [ofBuffer, hassert, if_pos ha]
    rfl
  · have hassert : assert b (commandSize ≤ v.toSizeT) = .ok () :=
      if_neg (fun h => ha ⟨h.1, by omega⟩)
    have hcmd : buf.read 0 commandSize = .error .outOfBounds :=
      if_neg (by rcases hc with hc | hc <;> [omega; exact absurd hc ha])
    simp only [ofBuffer, hassert, hcmd, if_neg ha]
    rfl

theorem payloadRead_unbuilt (h : HoldsAll s a events) {packetSize : ℕ}
    (hv : ∃ v : PacketSize, v.toSizeT = packetSize) (ha : (offer b packetSize events {}).accepted)
    (hp : packetSize < n)
    (hc : n < commandSize ∨ (b.asserts = true ∧ packetSize < commandSize)) :
    Ends (payloadRead b socket packetSize) s
      (.error (if b.asserts = true ∧ packetSize < commandSize then .assertion else .outOfBounds))
      (offer b packetSize events {}).rest s.session := by
  obtain ⟨v, rfl⟩ := hv
  have hsize := s.inb.buffer.size_lt
  have hle := offer_length_le b v.toSizeT events {}
  obtain ⟨s1, hs1, ⟨hl1, hh1⟩, hq⟩ := payloadRead_accepted b socket h (by omega) (by omega) ha
  have hnarrow := (toSizeT_narrow (v := v) (by omega)).2
  have hof := ofBuffer_unbuilt b socket s1.inb.buffer (v := v) (by rw [hh1.offset, Nat.zero_add]; exact hc)
  have htake : takePacket b socket v.toSizeT s1 =
      (.error (if b.asserts = true ∧ v.toSizeT < commandSize then .assertion else .outOfBounds), s1) := by
    rw [takePacket, bind_error]
    simp only [fromBuffer, ask, hnarrow, hof]
  rw [bind_ok (checkPacketSize_ok b hp), bind_error htake] at hs1
  exact ⟨by rw [hs1], by rw [hs1]; exact hh1.events, by rw [hs1, hq]⟩

/-- Nothing was asked for and no length decoded from `s` to `s'`. -/
structure Keeps (s s' : ReadState n) : Prop where
  requests : s'.inb.requests = s.inb.requests
  lengths : s'.session.lengths = s.session.lengths

theorem takePacket_keeps (packetSize : ℕ) (s : ReadState n) :
    Keeps s (takePacket b socket packetSize s).2 := by
  rcases hp : ofBuffer b socket s.inb.buffer (BitVec.ofNat 16 packetSize) with e | packet
  · rw [takePacket, bind_error (show fromBuffer _ s = (.error e, s) by
      simp only [fromBuffer, ask, hp])]
    exact ⟨rfl, rfl⟩
  rw [takePacket, bind_ok (show fromBuffer _ s = (.ok packet, s) by simp only [fromBuffer, ask, hp])]
  rcases ho : s.inb.buffer.offsetBy b packetSize with e | buf
  · rw [bind_error (onBuffer_error ho)]
    exact ⟨rfl, rfl⟩
  · rw [bind_ok (onBuffer_ok ho), onSession_apply]
    exact ⟨rfl, Session.lengths_dispatch socket packet s.session⟩

theorem payloadRead_keeps (packetSize : ℕ) (s : ReadState n) :
    Keeps { s with inb := (recvFixedBytes b packetSize true s.inb).2 }
      (payloadRead b socket packetSize s).2 := by
  rcases hr : (recvFixedBytes b packetSize true s.inb).1 with e | r
  · have hrecv := receive_eq (s := s) (f := recvFixedBytes b packetSize true) (Prod.ext hr rfl)
    rw [payloadRead, bind_error hrecv]
    exact ⟨rfl, rfl⟩
  have hrecv := receive_eq (s := s) (f := recvFixedBytes b packetSize true) (Prod.ext hr rfl)
  rw [payloadRead, bind_ok hrecv]
  split_ifs
  · exact ⟨rfl, rfl⟩
  by_cases hp : n ≤ packetSize
  · rw [bind_error (checkPacketSize_error b hp)]
    exact ⟨rfl, rfl⟩
  rw [bind_ok (checkPacketSize_ok b (by omega))]
  have hk := takePacket_keeps b socket packetSize
    { s with inb := (recvFixedBytes b packetSize true s.inb).2 }
  rcases ht : takePacket b socket packetSize
    { s with inb := (recvFixedBytes b packetSize true s.inb).2 } with ⟨e | _, s2⟩
  · rw [ht] at hk
    rw [bind_error ht]
    exact hk
  · rw [ht] at hk
    rw [bind_ok ht]
    exact hk

/-! ### The length field -/

theorem readSingleShot_start (s : ReadState n) :
    ∃ s0 : ReadState n, HoldsAll s0 s.inb.buffer.arr s.inb.events ∧ s0.session = s.session ∧
      s0.inb.requests = s.inb.requests ∧
      readSingleShot b socket s = (do
        let recvResult ← receive (recvFixedBytes b sizeBytes true)
        if recvResult.isFailure then closeSocket
        else
          let packetSize ← nextPacketSize b
          payloadRead b socket packetSize : ReadM n ClientPollResult) s0 := by
  have hset := onBuffer_start b s
  exact ⟨_, holdsAll s (s.inb.buffer.withOffset 0) s.inb.events s.inb.requests rfl, rfl, rfl,
    bind_ok hset⟩

theorem readSingleShot_overrun (hn : n < (offer b sizeBytes s.inb.events {}).bytes.length) :
    (readSingleShot b socket s).1 = .error .outOfBounds ∧
      (readSingleShot b socket s).2.session = s.session := by
  obtain ⟨s0, h0, hq0, -, hrun⟩ := readSingleShot_start b socket s
  rcases receiveFixed_cases b h0 (show sizeBytes < 2 ^ 64 by decide) with ⟨-, s1, hs1, hq⟩ | ⟨h', -⟩
  · rw [hrun, bind_error hs1]
    exact ⟨rfl, hq.trans hq0⟩
  · omega

theorem readSingleShot_aborted (hn : (offer b sizeBytes s.inb.events {}).bytes.length ≤ n)
    (ha : (offer b sizeBytes s.inb.events {}).ending = .aborted) :
    Ends (readSingleShot b socket) s (.error .assertion) (offer b sizeBytes s.inb.events {}).rest
      s.session := by
  obtain ⟨s0, h0, hq0, -, hrun⟩ := readSingleShot_start b socket s
  rcases receiveFixed_cases b h0 (show sizeBytes < 2 ^ 64 by decide) with
    ⟨h', -⟩ | ⟨-, s1, hs1, hh1, hq, -⟩
  · omega
  rw [Offer.result_aborted ha] at hs1
  rw [bind_error hs1] at hrun
  exact ⟨by rw [hrun], by rw [hrun]; exact hh1.2.events, by rw [hrun, hq, hq0]⟩

theorem readSingleShot_refused (hn : (offer b sizeBytes s.inb.events {}).bytes.length ≤ n)
    (hr : (offer b sizeBytes s.inb.events {}).refused) :
    Ends (readSingleShot b socket) s (.ok { terminate := true })
      (offer b sizeBytes s.inb.events {}).rest s.session.close := by
  obtain ⟨s0, h0, hq0, -, hrun⟩ := readSingleShot_start b socket s
  rcases receiveFixed_cases b h0 (show sizeBytes < 2 ^ 64 by decide) with
    ⟨h', -⟩ | ⟨-, s1, hs1, hh1, hq, -⟩
  · omega
  obtain ⟨r, hok, hfail⟩ := Offer.result_refused hr
  rw [bind_ok (hs1.trans (by rw [hok])), hfail, if_pos rfl] at hrun
  refine ⟨by rw [hrun]; rfl, by rw [hrun]; exact hh1.2.events, ?_⟩
  rw [hrun, ← hq0, ← hq]
  rfl

theorem readSingleShot_tiny (hn : (offer b sizeBytes s.inb.events {}).bytes.length ≤ n)
    (ha : (offer b sizeBytes s.inb.events {}).accepted) (hs : n < sizeBytes) :
    Ends (readSingleShot b socket) s (.error .outOfBounds)
      (offer b sizeBytes s.inb.events {}).rest s.session.count := by
  obtain ⟨s0, h0, hq0, -, hrun⟩ := readSingleShot_start b socket s
  rcases receiveFixed_cases b h0 (show sizeBytes < 2 ^ 64 by decide) with
    ⟨h', -⟩ | ⟨-, s1, hs1, hh1, hq, -⟩
  · omega
  obtain ⟨r, hok, hfail, -⟩ := Offer.result_accepted ha
  rw [bind_ok (hs1.trans (by rw [hok])), hfail, if_neg (by simp),
    bind_error (nextPacketSize_past b (by rw [hh1.2.offset]; omega))] at hrun
  exact ⟨by rw [hrun], by rw [hrun]; exact hh1.2.events, by rw [hrun, hq, hq0]⟩

/-- Once something of the length field has come, the length is what the array holds. -/
theorem readSingleShot_headed (hn : (offer b sizeBytes s.inb.events {}).bytes.length ≤ n)
    (ha : (offer b sizeBytes s.inb.events {}).accepted) (hs : sizeBytes ≤ n) : ∃ s1,
      readSingleShot b socket s = payloadRead b socket
        (lengthOf b (overwrite s.inb.buffer.arr 0 (offer b sizeBytes s.inb.events {}).bytes)) s1 ∧
      HoldsAll s1 (overwrite s.inb.buffer.arr 0 (offer b sizeBytes s.inb.events {}).bytes)
        (offer b sizeBytes s.inb.events {}).rest ∧
      s1.session = s.session.headed b
        (overwrite s.inb.buffer.arr 0 (offer b sizeBytes s.inb.events {}).bytes) ∧
      s1.inb.requests = s.inb.requests ++
        requestsAt 0 sizeBytes (offer b sizeBytes s.inb.events {}).asks := by
  obtain ⟨s0, h0, hq0, hr0, hrun⟩ := readSingleShot_start b socket s
  rcases receiveFixed_cases b h0 (show sizeBytes < 2 ^ 64 by decide) with
    ⟨h', -⟩ | ⟨-, s1, hs1, hh1, hq, hr1⟩
  · omega
  obtain ⟨r, hok, hfail, -⟩ := Offer.result_accepted ha
  rw [bind_ok (hs1.trans (by rw [hok])), hfail, if_neg (by simp),
    bind_ok (nextPacketSize_eq b hh1.2 (by rw [hh1.1]; exact hs))] at hrun
  refine ⟨_, hrun, ⟨hh1.1, hh1.2.offset, hh1.2.fits, hh1.2.bytes, hh1.2.events⟩, ?_, ?_⟩
  · rw [hq, hq0]
    rfl
  · rw [← hr0]
    exact hr1

end SingleShot

end PollServer
