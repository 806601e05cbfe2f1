import PollServer.Model.ReadPacket
import PollServer.Read.Overrun
import PollServer.Read.SingleShot

/-! Where the receives of a packet are told to store. The multi-shot read checks a length
before it asks for the payload; the single-shot read and `RawPacket::Read` ask for as many
bytes as the length field says, and are inside the array only if that is. -/

namespace PollServer

open Lib StopM NetworkPacket ReadM

section Bounds

variable {n : ℕ} (b : Build) (socket : ℤ)

theorem recvFixedBytes_inBounds {size : ℕ} (hs : size < 2 ^ 64) (inb : Inbound n)
    (ho : inb.buffer.offset = 0) (hi : InBounds n inb.requests) :
    InBounds n (recvFixedBytes b size true inb).2.requests ↔ size ≤ n := by
  obtain ⟨more, hr, hall, hne⟩ := recvLoop_requests b true size inb.events inb.buffer inb.requests 0 {}
    (Nat.zero_le _) hs
  rw [ho, Nat.zero_add] at hall
  have hrun : (recvFixedBytes b size true inb).2.requests = inb.requests ++ more := hr
  rw [hrun]
  constructor
  · intro h
    rcases Nat.eq_zero_or_pos size with h0 | hpos
    · omega
    obtain ⟨q, hq⟩ := List.exists_mem_of_ne_nil more (hne hpos)
    have h1 := h q (List.mem_append_right _ hq)
    have h2 := hall q hq
    omega
  · intro hle
    apply inBounds_append hi
    intro q hq
    have := hall q hq
    omega

/-- The length field of an array into which `events` deliver a header. -/
def headerLength (a : List Byte) (events : List RecvEvent) : ℕ :=
  lengthOf b (overwrite a 0 (offer b sizeBytes events {}).bytes)

theorem requestsAt_inBounds {size : ℕ} (hs : size ≤ n) (asks : List ℕ) (h : ∀ k ∈ asks, k ≤ size) :
    InBounds n (requestsAt 0 size asks) := by
  intro q hq
  obtain ⟨k, hk, rfl⟩ := List.mem_map.mp hq
  have := h k hk
  dsimp only
  omega

/-- **The single-shot read** stays inside the array unless a header is accepted that
announces more than the array. -/
theorem readSingleShot_inBounds (h2 : sizeBytes ≤ n) (s : ReadState n) (hi : InBounds n s.inb.requests) :
    InBounds n (readSingleShot b socket s).2.inb.requests ↔
      ((offer b sizeBytes s.inb.events {}).accepted →
        headerLength b s.inb.buffer.arr s.inb.events ≤ n) := by
  have hle := offer_length_le b sizeBytes s.inb.events {}
  have hn := hle.trans h2
  obtain ⟨s0, h0, hq0, hr0, hrun0⟩ := readSingleShot_start b socket s
  by_cases ha : (offer b sizeBytes s.inb.events {}).accepted
  · obtain ⟨s1, hrun, hh1, -, hr1⟩ := readSingleShot_headed b socket hn ha h2
    have hi1 : InBounds n s1.inb.requests := by
      rw [hr1]
      exact inBounds_append hi (requestsAt_inBounds h2 _ (offer_asks_le b _ _ _))
    rw [hrun, (payloadRead_keeps b socket _ s1).requests,
      recvFixedBytes_inBounds b (lengthOf_lt b _) s1.inb hh1.2.offset hi1]
    exact ⟨fun h _ => h, fun h => h ha⟩
  · refine iff_of_true ?_ (fun h => absurd h ha)
    rcases receiveFixed_cases b h0 (show sizeBytes < 2 ^ 64 by decide) with
      ⟨h', -⟩ | ⟨-, s1, hs1, -, -, hr1⟩
    · omega
    have hi1 : InBounds n s1.inb.requests := by
      rw [hr1, hr0]
      exact inBounds_append hi (requestsAt_inBounds h2 _ (offer_asks_le b _ _ _))
    rcases (offer b sizeBytes s.inb.events {}).accepted_or with ha' | hr | ha'
    · rw [Offer.result_aborted ha'] at hs1
      rw [hrun0, bind_error hs1]
      exact hi1
    · obtain ⟨r, hok, hfail⟩ := Offer.result_refused hr
      rw [hrun0, bind_ok (hs1.trans (by rw [hok])), hfail, if_pos rfl]
      exact hi1
    · exact absurd ha' ha

theorem readMultiShot_inBounds (s : ReadState n) (hi : InBounds n s.inb.requests) :
    InBounds n (readMultiShot b socket s).2.inb.requests :=
  (readMultiShot_runs b socket s).inBounds hi

/-! ### `RawPacket::Read` -/

section Wire

variable (timeout : ℕ)

/-- Whether the poll before a receive lets it through. -/
def passes (polls : List PollEvent) : Bool := timeout = 0 || polls.head? = some .readable

/-- The polls left for the next receive. -/
def pollsAfter (polls : List PollEvent) : List PollEvent := if timeout = 0 then polls else polls.tail

theorem pollIn_passes {w : Wire n} (h : passes timeout w.polls = true) :
    pollIn timeout w = (.ok true, { w with polls := pollsAfter timeout w.polls }) := by
  obtain ⟨inb, polls⟩ := w
  simp only [passes, Bool.or_eq_true, decide_eq_true_eq] at h
  by_cases h0 : timeout = 0
  · simp [pollIn, pollsAfter, h0]
  · rcases polls with _ | ⟨_ | _ | _, polls⟩ <;> simp [h0] at h
    simp [pollIn, pollsAfter, h0]

theorem pollRecvFixedBytes_passes {w : Wire n} (size : ℕ) (h : passes timeout w.polls = true) :
    pollRecvFixedBytes b size timeout w =
      ((recvFixedBytes b size true w.inb).1,
        ⟨(recvFixedBytes b size true w.inb).2, pollsAfter timeout w.polls⟩) := by
  rw [pollRecvFixedBytes, bind_ok (pollIn_passes timeout h)]
  rfl

theorem pollRecvFixedBytes_fails {w : Wire n} (size : ℕ) (h : passes timeout w.polls = false) :
    ∃ r polls, pollRecvFixedBytes b size timeout w = (r, ⟨w.inb, polls⟩) ∧
      ∀ recvData, r = .ok recvData → recvData.isFailure = true ∧ recvData.pollFailure = true := by
  obtain ⟨inb, polls⟩ := w
  simp only [passes, Bool.or_eq_false_iff, decide_eq_false_iff_not] at h
  have hfail : ∀ recvData : Result, Except.ok (ε := Stop) { pollFailure := true } = .ok recvData →
      recvData.isFailure = true ∧ recvData.pollFailure = true := by
    rintro _ ⟨⟩
    exact ⟨rfl, rfl⟩
  rcases polls with _ | ⟨_ | _ | _, polls⟩
  · refine ⟨.ok { pollFailure := true }, [], ?_, hfail⟩
    rw [pollRecvFixedBytes, bind_ok (show pollIn timeout _ = (.ok false, ⟨inb, []⟩) by
      simp [pollIn, h.1])]
    rfl
  · exact absurd rfl h.2
  · refine ⟨.ok { pollFailure := true }, polls, ?_, hfail⟩
    rw [pollRecvFixedBytes, bind_ok (show pollIn timeout _ = (.ok false, ⟨inb, polls⟩) by
      simp [pollIn, h.1])]
    rfl
  · refine ⟨.error .runtimeError, polls, ?_, by simp⟩
    rw [pollRecvFixedBytes, bind_error (show pollIn timeout _ = (.error .runtimeError, ⟨inb, polls⟩) by
      simp [pollIn, h.1])]

theorem readPayload_requests (hb : b.asserts = false) (v : PacketSize) (w : Wire n) :
    (readPayload b socket timeout v w).2.inb.requests =
      if passes timeout w.polls then (recvFixedBytes b v.toSizeT true w.inb).2.requests
      else w.inb.requests := by
  have h0 : ask (fun w : Wire n => assert b (v.toSizeT < w.inb.buffer.size)) w = (.ok (), w) := by
    simp only [ask, assert_off hb]
  rw [readPayload, bind_ok h0]
  by_cases hp : passes timeout w.polls = true
  · rw [if_pos hp]
    have hrecv := pollRecvFixedBytes_passes b timeout v.toSizeT hp
    rcases hr : (recvFixedBytes b v.toSizeT true w.inb).1 with e | r
    · rw [hr] at hrecv
      rw [bind_error hrecv]
    rw [hr] at hrecv
    rw [bind_ok hrecv]
    split_ifs
    · rfl
    rw [bind_ok (show ask _ _ = (.ok (), _) by simp only [ask, assert_off hb]; rfl)]
    rfl
  · have hp' : passes timeout w.polls = false := by simpa using hp
    obtain ⟨r, polls, hrecv, hfail⟩ := pollRecvFixedBytes_fails b timeout v.toSizeT hp'
    rw [if_neg hp]
    rcases r with e | r
    · rw [bind_error hrecv]
    · rw [bind_ok hrecv, (hfail r rfl).1]
      rfl

theorem readPacket_headed {w w1 : Wire n} {r : Result}
    (hrecv : pollRecvFixedBytes b sizeBytes timeout w = (.ok r, w1)) (hfail : r.isFailure = false)
    (ho : w1.inb.buffer.offset = 0) (h2 : sizeBytes ≤ n) :
    readPacket b socket timeout w =
      readPayload b socket timeout (packetSizeOf b.order (w1.inb.buffer.arr.take sizeBytes)) w1 := by
  have hread : w1.inb.buffer.read 0 sizeBytes = .ok (w1.inb.buffer.arr.take sizeBytes) := by
    rw [Buffer.read, if_pos (by omega), ho]
    rfl
  have hext : extractPacketSizeFromBuffer b w1.inb.buffer =
      .ok (packetSizeOf b.order (w1.inb.buffer.arr.take sizeBytes)) := by
    simp only [extractPacketSizeFromBuffer, hread]
    rfl
  have hask : ask (fun w : Wire n => extractPacketSizeFromBuffer b w.inb.buffer) w1 =
      (.ok (packetSizeOf b.order (w1.inb.buffer.arr.take sizeBytes)), w1) := by
    simp only [ask, hext]
  rw [readPacket, bind_ok hrecv, hfail, if_neg (by simp), bind_ok hask]

/-- **`RawPacket::Read`** stays inside the array unless both polls pass and a header is
accepted that announces more than the array. -/
theorem readPacket_inBounds (hb : b.asserts = false) (h2 : sizeBytes ≤ n) (w : Wire n)
    (ho : w.inb.buffer.offset = 0) (hi : InBounds n w.inb.requests) :
    InBounds n (readPacket b socket timeout w).2.inb.requests ↔
      (passes timeout w.polls = true → passes timeout (pollsAfter timeout w.polls) = true →
        (offer b sizeBytes w.inb.events {}).accepted →
          headerLength b w.inb.buffer.arr w.inb.events ≤ n) := by
  by_cases hp : passes timeout w.polls = true
  swap
  · have hp' : passes timeout w.polls = false := by simpa using hp
    refine iff_of_true ?_ (fun h => absurd h hp)
    obtain ⟨r, polls, hrecv, hfail⟩ := pollRecvFixedBytes_fails b timeout sizeBytes hp'
    rcases r with e | r
    · rw [readPacket, bind_error hrecv]
      exact hi
    · rw [readPacket, bind_ok hrecv, (hfail r rfl).1]
      exact hi
  have hle := offer_length_le b sizeBytes w.inb.events {}
  have hrecv := pollRecvFixedBytes_passes b timeout sizeBytes hp
  have heq := recvFixedBytes_eq b (show sizeBytes < 2 ^ 64 by decide) w.inb (by omega)
  rw [heq, ho] at hrecv
  dsimp only at hrecv
  have hi1 : InBounds n (w.inb.requests ++
      requestsAt 0 sizeBytes (offer b sizeBytes w.inb.events {}).asks) :=
    inBounds_append hi (requestsAt_inBounds h2 _ (offer_asks_le b _ _ _))
  rcases (offer b sizeBytes w.inb.events {}).accepted_or with ha | hr | ha
  · refine iff_of_true ?_ (fun _ _ h => absurd ha (Offer.not_aborted h))
    rw [Offer.result_aborted ha] at hrecv
    rw [readPacket, bind_error hrecv]
    exact hi1
  · refine iff_of_true ?_ (fun _ _ h => absurd hr (Offer.not_refused h))
    obtain ⟨r, hok, hfail⟩ := Offer.result_refused hr
    rw [hok] at hrecv
    rw [readPacket, bind_ok hrecv, hfail]
    exact hi1
  · obtain ⟨r, hok, hfail, -⟩ := Offer.result_accepted ha
    rw [hok] at hrecv
    have harr : (w.inb.buffer.stored 0 (offer b sizeBytes w.inb.events {}).bytes).arr =
        overwrite w.inb.buffer.arr 0 (offer b sizeBytes w.inb.events {}).bytes := by
      rw [Buffer.stored_arr _ (by omega), ho]
    rw [readPacket_headed b socket timeout hrecv hfail (by simp [ho]) h2,
      readPayload_requests b socket timeout hb]
    by_cases hp2 : passes timeout (pollsAfter timeout w.polls) = true
    · rw [if_pos hp2]
      dsimp only
      rw [harr]
      apply (recvFixedBytes_inBounds b (lengthOf_lt b _) _ (by simpa using ho) hi1).trans
      exact ⟨fun h _ _ _ => h, fun h => h hp hp2 ha⟩
    · rw [if_neg hp2]
      exact iff_of_true hi1 (fun _ h => absurd h hp2)

end Wire

/-- **Receive bounds.** With the asserts out, every receive of the multi-shot read stays
inside the array; the other two leave it exactly when the length field of an accepted
header announces more than the array. -/
theorem receives_inBounds (order : ByteOrder) (h2 : 2 ≤ n) (buf : Buffer n)
    (events : List RecvEvent) (ses : Session) (timeout : ℕ) (polls : List PollEvent) :
    (InBounds n (readSingleShot ⟨false, order⟩ socket ⟨⟨buf, events, []⟩, ses⟩).2.inb.requests ↔
      ((offer ⟨false, order⟩ sizeBytes events {}).accepted →
        headerLength ⟨false, order⟩ buf.arr events ≤ n)) ∧
    InBounds n (readMultiShot ⟨false, order⟩ socket ⟨⟨buf, events, []⟩, ses⟩).2.inb.requests ∧
    (InBounds n (readPacket ⟨false, order⟩ socket timeout
        ⟨⟨buf.withOffset 0, events, []⟩, polls⟩).2.inb.requests ↔
      (passes timeout polls = true → passes timeout (pollsAfter timeout polls) = true →
        (offer ⟨false, order⟩ sizeBytes events {}).accepted →
          headerLength ⟨false, order⟩ buf.arr events ≤ n)) :=
  have hi : InBounds n [] := by simp [InBounds]
  ⟨readSingleShot_inBounds _ socket h2 _ hi, readMultiShot_inBounds _ socket _ hi,
    readPacket_inBounds _ socket timeout rfl h2 _ rfl hi⟩

/-- A whole packet in the sample's buffer, and for the multi-shot read one of 256 bytes. -/
theorem receives_inBounds_send :
    InBounds 106 (readSingleShot ⟨false, .little⟩ 5
        (sampleState [.arrive (0 :: 4 :: Commands.send)])).2.inb.requests ∧
      InBounds 106 (readMultiShot ⟨false, .little⟩ 5
        (sampleState [.arrive (1 :: 0 :: Commands.send)])).2.inb.requests ∧
      InBounds 106 (readPacket ⟨false, .little⟩ 5 10 ⟨⟨sampleBuffer.withOffset 0,
        [.arrive (0 :: 4 :: Commands.send)], []⟩, [.readable, .readable]⟩).2.inb.requests := by
  obtain ⟨hsingle, -, hpacket⟩ := receives_inBounds 5 .little (by decide) sampleBuffer
    [.arrive (0 :: 4 :: Commands.send)] (sampleState []).session 10 [.readable, .readable]
  obtain ⟨-, hmulti, -⟩ := receives_inBounds 5 .little (by decide) sampleBuffer
    [.arrive (1 :: 0 :: Commands.send)] (sampleState []).session 10 []
  exact ⟨hsingle.mpr fun _ => by decide, hmulti, hpacket.mpr fun _ _ _ => by decide⟩

/-- A length field of 256 makes the single-shot read ask for 256 bytes. -/
theorem receives_overrun :
    ¬∀ (n : ℕ) (socket : ℤ) (order : ByteOrder) (buf : Buffer n) (events : List RecvEvent)
      (ses : Session) (timeout : ℕ) (polls : List PollEvent), 2 ≤ n →
      InBounds n (readSingleShot ⟨false, order⟩ socket ⟨⟨buf, events, []⟩, ses⟩).2.inb.requests ∧
        InBounds n (readMultiShot ⟨false, order⟩ socket ⟨⟨buf, events, []⟩, ses⟩).2.inb.requests ∧
        InBounds n (readPacket ⟨false, order⟩ socket timeout
          ⟨⟨buf.withOffset 0, events, []⟩, polls⟩).2.inb.requests := by
  intro h
  have hin := (h 106 5 .little sampleBuffer [.arrive [1, 0]] (sampleState []).session 0 []
    (by decide)).1
  exact absurd (hin ⟨0, 256⟩ (by decide)) (by decide)

end Bounds

end PollServer
