import PollServer.Model.ReadSocket
import PollServer.Read.Offer

/-! What each part of a read does to a buffer of which the received and unparsed bytes
are known. -/

namespace PollServer

open Lib StopM NetworkPacket ReadM

variable {n : ℕ} (b : Build) (socket : ℤ)

/-- Every request of the log stays inside an array of `n` bytes. -/
def InBounds (n : ℕ) (reqs : List Request) : Prop := ∀ q ∈ reqs, q.offset + q.len ≤ n

/-- The bytes `u` lie at the offset `o`, and `events` are to come. -/
structure Holds (s : ReadState n) (o : ℕ) (u : List Byte) (events : List RecvEvent) : Prop where
  offset : s.inb.buffer.offset = o
  fits : o + u.length ≤ n
  bytes : window s.inb.buffer.arr o u.length = u
  events : s.inb.events = events

/-- `s'` comes from `s` by a part of the read that leaves the session `ses`. -/
structure Follows (s s' : ReadState n) (ses : Session) : Prop where
  session : s'.session = ses
  inBounds : InBounds n s.inb.requests → InBounds n s'.inb.requests

theorem Follows.refl (s : ReadState n) : Follows s s s.session := ⟨rfl, id⟩

theorem Follows.trans {s s' s'' : ReadState n} {ses ses' : Session} (h : Follows s s' ses)
    (h' : Follows s' s'' ses') : Follows s s'' ses' :=
  ⟨h'.session, h'.inBounds ∘ h.inBounds⟩

theorem inBounds_append {reqs more : List Request} (h : InBounds n reqs) (h' : InBounds n more) :
    InBounds n (reqs ++ more) := by
  intro q hq
  rcases List.mem_append.mp hq with hq | hq
  · exact h q hq
  · exact h' q hq

variable {s : ReadState n} {o : ℕ} {u : List Byte} {events : List RecvEvent}

theorem onBuffer_start (s : ReadState n) : onBuffer (·.setOffset b 0) s =
    (.ok (), { s with inb := { s.inb with buffer := s.inb.buffer.withOffset 0 } }) :=
  onBuffer_ok (Buffer.setOffset_of_le b _ (Nat.zero_le n))

/-- The length in the length field at the front of `u`. -/
def lengthOf (b : Build) (u : List Byte) : ℕ := (packetSizeOf b.order (u.take sizeBytes)).toSizeT

theorem lengthOf_lt (u : List Byte) : lengthOf b u < 2 ^ 64 := BitVec.isLt _

theorem lengthOf_val (u : List Byte) : ∃ v : PacketSize, v.toSizeT = lengthOf b u := ⟨_, rfl⟩

theorem Holds.le (h : Holds s o u events) : o ≤ n := by
  have := h.fits
  omega

theorem nextPacketSize_eq (h : Holds s o u events) (hu : sizeBytes ≤ u.length) :
    nextPacketSize b s =
      (.ok (lengthOf b u), { s with session := s.session.count.decoded (lengthOf b u) }) := by
  have hr : s.inb.buffer.read 0 sizeBytes = .ok (u.take sizeBytes) := by
    have hn := h.fits
    rw [Buffer.read, h.offset, if_pos (by omega), Nat.add_zero, window_take h.bytes hu]
  have he : extractPacketSizeFromBuffer b s.inb.buffer =
      .ok (packetSizeOf b.order (u.take sizeBytes)) := by
    simp only [extractPacketSizeFromBuffer, hr]
    rfl
  simp only [nextPacketSize, bind, onSession, fromBuffer, ask, he]
  rfl

theorem nextPacketSize_past (h : n < s.inb.buffer.offset + sizeBytes) :
    nextPacketSize b s = (.error .outOfBounds, { s with session := s.session.count }) := by
  have he : extractPacketSizeFromBuffer b s.inb.buffer = .error .outOfBounds := by
    simp only [extractPacketSizeFromBuffer, Buffer.read]
    rw [if_neg (by omega)]
    rfl
  simp only [nextPacketSize, bind, onSession, fromBuffer, ask, he]

theorem checkPacketSize_ok {packetSize : ℕ} (hp : packetSize < n) :
    checkPacketSize b packetSize s = (.ok (), s) := by
  have : ¬n ≤ packetSize := by omega
  simp [checkPacketSize, bind, check, assert_of hp, this]

theorem checkPacketSize_error {packetSize : ℕ} (hp : n ≤ packetSize) :
    checkPacketSize b packetSize s =
      (.error (if b.asserts then .assertion else .invalidArgument), s) := by
  have : ¬packetSize < n := by omega
  cases hb : b.asserts <;> simp [checkPacketSize, bind, check, assert, hb, hp, stop, this]

theorem offsetBy_holds (h : Holds s o u events) {k : ℕ} (hk : k ≤ u.length) :
    ∃ s', onBuffer (·.offsetBy b k) s = (.ok (), s') ∧ Holds s' (o + k) (u.drop k) events ∧
      Follows s s' s.session := by
  have hn := h.fits
  refine ⟨_, onBuffer_ok (Buffer.offsetBy_of_le b _ (by rw [h.offset]; omega)), ⟨?_, ?_, ?_, ?_⟩,
    rfl, id⟩
  · simp [h.offset]
  · simp only [List.length_drop]; omega
  · simpa using window_drop h.bytes hk
  · exact h.events

theorem takePacket_holds (h : Holds s o u events) {packetSize : ℕ} (hp : packetSize ≤ u.length)
    (hc : commandSize ≤ u.length) (ha : b.asserts = true → commandSize ≤ packetSize)
    (hv : ∃ v : PacketSize, v.toSizeT = packetSize) :
    ∃ s', takePacket b socket packetSize s = (.ok (), s') ∧
      Holds s' (o + packetSize) (u.drop packetSize) events ∧
      Follows s s' (s.session.dispatch socket (front socket packetSize u)) := by
  obtain ⟨v, rfl⟩ := hv
  have hn := h.fits
  have hsize := s.inb.buffer.size_lt
  have hnarrow := (toSizeT_narrow (v := v) (by omega)).2
  have hp' : ofBuffer b socket s.inb.buffer (BitVec.ofNat 16 v.toSizeT) =
      .ok (front socket v.toSizeT u) := by
    rw [hnarrow]
    exact ofBuffer_eq b socket _ hp hc ha (by rw [h.offset]; exact hn) (by rw [h.offset]; exact h.bytes)
  obtain ⟨s', hs', hh, hf⟩ := offsetBy_holds b h hp
  refine ⟨{ s' with session := s'.session.dispatch socket (front socket v.toSizeT u) }, ?_,
    ⟨hh.offset, hh.fits, hh.bytes, hh.events⟩, ?_, hf.inBounds⟩
  · simp only [takePacket]
    rw [bind_ok (show fromBuffer _ s = (.ok _, s) by simp only [fromBuffer, ask, hp']; rfl), bind_ok hs']
    rfl
  · simp [hf.session]

theorem receive_eq {f : Inbound n → Except Stop Result × Inbound n} {r : Except Stop Result}
    {inb : Inbound n} (h : f s.inb = (r, inb)) : receive f s = (r, { s with inb := inb }) := by
  simp only [receive, h]

theorem received_cases {f : Inbound n → Except Stop Result × Inbound n}
    {g : Buffer n → Except Stop (Buffer n)} {off : Offer} {s1 s2 s3 : ReadState n} {k : ℕ}
    (hrecv : receive f s1 = (off.result 0, s2)) (hg : onBuffer g s2 = (.ok (), s3))
    (hk : k + off.bytes.length < 2 ^ 64) :
    let m : ReadM n (Option ℕ) := do
      let recvResult ← receive f
      if recvResult.isFailure then return none
      else
        onBuffer g
        return some (addSize k recvResult.noOfBytes)
    (off.ending = .aborted ∧ m s1 = (.error .assertion, s2)) ∨
    (off.refused ∧ m s1 = (.ok none, s2)) ∨
    (off.accepted ∧ m s1 = (.ok (some (k + off.bytes.length)), s3)) := by
  intro m
  rcases off.accepted_or with ha | hr | ha
  · refine Or.inl ⟨ha, bind_error ?_⟩
    rw [hrecv, Offer.result_aborted ha]
  · obtain ⟨r, hok, hfail⟩ := Offer.result_refused hr
    refine Or.inr (Or.inl ⟨hr, ?_⟩)
    dsimp only [m]
    rw [bind_ok (hrecv.trans (by rw [hok])), hfail]
    rfl
  · obtain ⟨r, hok, hfail, hlen⟩ := Offer.result_accepted ha
    refine Or.inr (Or.inr ⟨ha, ?_⟩)
    dsimp only [m]
    rw [bind_ok (hrecv.trans (by rw [hok])), hfail, if_neg (by simp), bind_ok hg, hlen,
      addSize_of_lt hk]
    rfl

/-- An iteration that starts with less than a length field asks once more. -/
theorem refill_cases (h : Holds s o u events) (hu : u.length < sizeBytes) :
    let off := offerOnce b (n - (o + u.length)) events
    (off.ending = .aborted ∧ ∃ s', refill b u.length s = (.error .assertion, s') ∧
      Follows s s' s.session) ∨
    (off.refused ∧ ∃ s', refill b u.length s = (.ok none, s') ∧ s'.inb.events = off.rest ∧
      Follows s s' s.session) ∨
    (off.accepted ∧ ∃ s', refill b u.length s = (.ok (some (u.length + off.bytes.length)), s') ∧
      Holds s' o (u ++ off.bytes) off.rest ∧ Follows s s' s.session) := by
  intro off
  have hn := h.fits
  set buf := s.inb.buffer.withOffset (o + u.length) with hbuf
  set inb : Inbound n := ⟨buf.stored 0 off.bytes, off.rest, s.inb.requests ++
    off.asks.map fun need => ⟨o + u.length, need⟩⟩ with hinb
  have hmove : onBuffer (·.offsetBy b u.length) s =
      (.ok (), { s with inb := { s.inb with buffer := buf } }) := by
    rw [onBuffer_ok (Buffer.offsetBy_of_le b _ (by rw [h.offset]; exact hn)), h.offset]
  have hrecv : receive (recvAsManyAsPossibleAsync b) { s with inb := { s.inb with buffer := buf } } =
      (off.result 0, { s with inb := inb }) := by
    rw [receive_eq (recvAsManyAsPossibleAsync_eq b _ (by simpa [hbuf] using hn))]
    simp [hbuf, hinb, off, h.events]
  have hfollows : Follows s { s with inb := inb } s.session := by
    refine ⟨rfl, fun hi => inBounds_append hi ?_⟩
    intro q hq
    obtain ⟨k, hk, rfl⟩ := List.mem_map.mp hq
    have := offerOnce_asks b _ events k hk
    dsimp only
    omega
  have hstart : refill b u.length s = (do
      let recvResult ← receive (recvAsManyAsPossibleAsync b)
      if recvResult.isFailure then return none
      else
        onBuffer (·.offsetBack b u.length)
        return some (addSize u.length recvResult.noOfBytes) : ReadM n (Option ℕ))
      { s with inb := { s.inb with buffer := buf } } := by
    rw [refill, if_pos hu, bind_ok hmove]
  have hle := offerOnce_length_le b (n - (o + u.length)) events
  have hsize := s.inb.buffer.size_lt
  have hfit : buf.offset + 0 + off.bytes.length ≤ n := by simp only [hbuf, off]; simp; omega
  have hback : onBuffer (·.offsetBack b u.length) { s with inb := inb } =
      (.ok (), { s with inb := { inb with buffer := inb.buffer.withOffset o } }) := by
    rw [onBuffer_ok (Buffer.offsetBack_of_le b _ (by simp [hinb, hbuf])
      (by simpa [hinb, hbuf] using hn))]
    simp [hinb, hbuf]
  rw [hstart]
  rcases received_cases hrecv hback (k := u.length) (by simp only [off]; omega) with
    ⟨ha, hm⟩ | ⟨hr, hm⟩ | ⟨ha, hm⟩
  · exact Or.inl ⟨ha, _, hm, hfollows⟩
  · exact Or.inr (Or.inl ⟨hr, _, hm, rfl, hfollows⟩)
  · refine Or.inr (Or.inr ⟨ha, _, hm, ⟨rfl, ?_, ?_, rfl⟩, rfl, hfollows.inBounds⟩)
    · simp only [List.length_append, off]; omega
    · simp only [Buffer.withOffset_arr, hinb, Buffer.stored_arr _ hfit, List.length_append]
      exact window_overwrite_extend _ (by rw [Buffer.length_arr]; exact hn) h.bytes

theorem refill_enough {r : ℕ} (hr : sizeBytes ≤ r) : refill b r s = (.ok (some r), s) := by
  have : ¬r < sizeBytes := by omega
  simp [refill, this]

/-- A packet that has not wholly arrived is moved to the start of the array, and what
it lacks is asked for. -/
theorem readExtra_cases (h : Holds s o u events) {packetSize : ℕ} (hu : u.length < packetSize)
    (hp : packetSize < n) :
    let off := offer b (packetSize - u.length) events {}
    (off.ending = .aborted ∧ ∃ s', readExtra b packetSize u.length s = (.error .assertion, s') ∧
      Follows s s' s.session) ∨
    (off.refused ∧ ∃ s', readExtra b packetSize u.length s = (.ok none, s') ∧
      s'.inb.events = off.rest ∧ Follows s s' s.session) ∨
    (off.accepted ∧ ∃ s', readExtra b packetSize u.length s =
        (.ok (some (u.length + off.bytes.length)), s') ∧
      Holds s' 0 (u ++ off.bytes) off.rest ∧ Follows s s' s.session) := by
  intro off
  have hn := h.fits
  have hsize := s.inb.buffer.size_lt
  have hle := offer_length_le b (packetSize - u.length) events {}
  set buf := s.inb.buffer.moved.withOffset u.length with hbuf
  have hfit : buf.offset + 0 + off.bytes.length ≤ n := by simp only [hbuf, off]; simp; omega
  set inb : Inbound n := ⟨buf.stored 0 off.bytes, off.rest, s.inb.requests ++
    requestsAt u.length (packetSize - u.length) off.asks⟩ with hinb
  have hmove : onBuffer (·.moveToStart b) s =
      (.ok (), { s with inb := { s.inb with buffer := s.inb.buffer.moved.withOffset 0 } }) :=
    onBuffer_ok (Buffer.moveToStart_of_le b _ (by rw [h.offset]; exact h.le))
  have hset : onBuffer (·.setOffset b u.length)
      { s with inb := { s.inb with buffer := s.inb.buffer.moved.withOffset 0 } } =
      (.ok (), { s with inb := { s.inb with buffer := buf } }) :=
    onBuffer_ok (Buffer.setOffset_of_le b _ (by omega))
  have hrecv : receive (recvFixedBytes b (packetSize - u.length) true)
      { s with inb := { s.inb with buffer := buf } } = (off.result 0, { s with inb := inb }) := by
    have hfit' : buf.offset + (offer b (packetSize - u.length) s.inb.events {}).bytes.length ≤ n := by
      rw [h.events]
      simpa [off] using hfit
    rw [receive_eq (recvFixedBytes_eq b (by omega) _ hfit')]
    simp [hbuf, hinb, off, h.events]
  have hfollows : Follows s { s with inb := inb } s.session := by
    refine ⟨rfl, fun hi => inBounds_append hi ?_⟩
    intro q hq
    obtain ⟨k, hk, rfl⟩ := List.mem_map.mp hq
    have := offer_asks_le b _ events {} k hk
    dsimp only
    omega
  have hstart : readExtra b packetSize u.length s = (do
      let recvResult ← receive (recvFixedBytes b (packetSize - u.length) true)
      if recvResult.isFailure then return none
      else
        onBuffer (·.setOffset b 0)
        return some (addSize u.length recvResult.noOfBytes) : ReadM n (Option ℕ))
      { s with inb := { s.inb with buffer := buf } } := by
    rw [readExtra, if_pos hu]
    dsimp only
    rw [subSize_of_le (by omega) (by omega), bind_ok hmove, bind_ok hset]
  have hback := onBuffer_start b { s with inb := inb }
  rw [hstart]
  rcases received_cases hrecv hback (k := u.length) (by simp only [off]; omega) with
    ⟨ha, hm⟩ | ⟨hr, hm⟩ | ⟨ha, hm⟩
  · exact Or.inl ⟨ha, _, hm, hfollows⟩
  · exact Or.inr (Or.inl ⟨hr, _, hm, rfl, hfollows⟩)
  · refine Or.inr (Or.inr ⟨ha, _, hm, ⟨rfl, ?_, ?_, rfl⟩, rfl, hfollows.inBounds⟩)
    · simp only [List.length_append, off]; omega
    · have hmoved := Buffer.window_moved s.inb.buffer (k := u.length) (by rw [h.offset]; exact hn)
      rw [h.offset, h.bytes] at hmoved
      simp only [Buffer.withOffset_arr, hinb, Buffer.stored_arr _ hfit, List.length_append]
      have hext := window_overwrite_extend off.bytes (show 0 + u.length ≤ s.inb.buffer.moved.arr.length by
        rw [Buffer.length_arr]; omega) hmoved
      simpa [hbuf] using hext

theorem readExtra_enough {packetSize r : ℕ} (hr : packetSize ≤ r) :
    readExtra b packetSize r s = (.ok (some r), s) := by
  have : ¬r < packetSize := by omega
  simp [readExtra, this]

end PollServer
