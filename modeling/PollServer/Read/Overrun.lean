import PollServer.Read.Frames

/-! The multi-shot read once its count of unparsed bytes has wrapped. After a length field
of which one byte arrived, or a payload that ended early, the count is close to `2 ^ 64`:
the loop then asks for nothing more, and never returns. From this follow the bounds of
every receive, the fuel, and that with the asserts in `Reads` is all that can return. -/

namespace PollServer

open Lib StopM NetworkPacket ReadM

section Overrun

variable {n : ℕ} (b : Build) (socket : ℤ) {s : ReadState n}

theorem holds_window {o r : ℕ} (ho : s.inb.buffer.offset = o) (hr : o + r ≤ n) :
    ∃ u, u.length = r ∧ Holds s o u s.inb.events := by
  have hl : (window s.inb.buffer.arr o r).length = r :=
    length_window (by rw [s.inb.buffer.length_arr]; exact hr)
  exact ⟨_, hl, ho, by rw [hl]; exact hr, by rw [hl], rfl⟩

theorem ofBuffer_cases (buf : Buffer n) (v : PacketSize) :
    (∃ e, e ≠ .diverges ∧ ofBuffer b socket buf v = .error e) ∨
      ∃ packet, ofBuffer b socket buf v = .ok packet ∧ buf.offset + v.toSizeT ≤ n ∧
        (b.asserts = true → commandSize ≤ v.toSizeT) := by
  unfold ofBuffer
  rcases ha : assert b (commandSize ≤ v.toSizeT) with e | t
  · refine Or.inl ⟨e, ?_, rfl⟩
    rintro rfl
    unfold assert at ha
    split_ifs at ha
    cases ha
  by_cases hc : buf.offset + 0 + commandSize ≤ n
  · have hcmd : buf.read 0 commandSize = .ok (window buf.arr (buf.offset + 0) commandSize) := if_pos hc
    by_cases hd : commandSize < v.toSizeT
    · by_cases hf : buf.offset + commandSize + (v.toSizeT - commandSize) ≤ n
      · have hdat : buf.read commandSize (v.toSizeT - commandSize) =
            .ok (window buf.arr (buf.offset + commandSize) (v.toSizeT - commandSize)) := if_pos hf
        refine Or.inr ⟨⟨socket, window buf.arr (buf.offset + 0) commandSize,
          window buf.arr (buf.offset + commandSize) (v.toSizeT - commandSize)⟩, ?_, by omega,
          assert_ok ha⟩
        simp only [hcmd, if_pos hd, hdat]
        rfl
      · have hdat : buf.read commandSize (v.toSizeT - commandSize) = .error .outOfBounds := if_neg hf
        refine Or.inl ⟨.outOfBounds, by decide, ?_⟩
        simp only [hcmd, if_pos hd, hdat]
        rfl
    · refine Or.inr ⟨⟨socket, window buf.arr (buf.offset + 0) commandSize, []⟩, ?_, by omega,
        assert_ok ha⟩
      simp only [hcmd, if_neg hd]
      rfl
  · have hcmd : buf.read 0 commandSize = .error .outOfBounds := if_neg hc
    refine Or.inl ⟨.outOfBounds, by decide, ?_⟩
    simp only [hcmd]
    rfl

theorem takePacket_cases {packetSize : ℕ} (hp : packetSize < n)
    (hv : ∃ v : PacketSize, v.toSizeT = packetSize) :
    (∃ e, e ≠ .diverges ∧ takePacket b socket packetSize s = (.error e, s)) ∨
      ∃ s', takePacket b socket packetSize s = (.ok (), s') ∧
        s'.inb.buffer.offset = s.inb.buffer.offset + packetSize ∧
        s.inb.buffer.offset + packetSize ≤ n ∧ s'.inb.requests = s.inb.requests ∧
        (b.asserts = true → commandSize ≤ packetSize) := by
  obtain ⟨v, rfl⟩ := hv
  have hsize := s.inb.buffer.size_lt
  have hnarrow := (toSizeT_narrow (v := v) (by omega)).2
  rcases ofBuffer_cases b socket s.inb.buffer v with ⟨e, he, hr⟩ | ⟨packet, hr, hn, ha⟩
  · refine Or.inl ⟨e, he, ?_⟩
    rw [takePacket, bind_error]
    simp only [fromBuffer, ask, hnarrow, hr]
  · have hpacket : fromBuffer (fun buf => ofBuffer b socket buf (BitVec.ofNat 16 v.toSizeT)) s =
        (.ok packet, s) := by
      simp only [fromBuffer, ask, hnarrow, hr]
    refine Or.inr ⟨{ s with
        inb := { s.inb with buffer := s.inb.buffer.withOffset (s.inb.buffer.offset + v.toSizeT) }
        session := s.session.dispatch socket packet }, ?_, rfl, hn, rfl, ha⟩
    rw [takePacket, bind_ok hpacket, bind_ok (onBuffer_ok (Buffer.offsetBy_of_le b _ hn)),
      onSession_apply]

/-- The count of unparsed bytes has wrapped: it reaches past every address. -/
structure Wrapped (s : ReadState n) (r : ℕ) : Prop where
  le : s.inb.buffer.offset ≤ n
  lt : r < 2 ^ 64
  past : 2 ^ 64 ≤ r + s.inb.buffer.offset

/-- `m` keeps its requests inside the array on `s`, and does not run out of fuel. -/
structure Runs (m : ReadM n ClientPollResult) (s : ReadState n) (fuelled : Prop) : Prop where
  inBounds : InBounds n s.inb.requests → InBounds n (m s).2.inb.requests
  ends : fuelled → (m s).1 ≠ .error .diverges

variable {m m' : ReadM n ClientPollResult} {s' : ReadState n} {p q : Prop} {b socket}

theorem Runs.of_eq (h : Runs m' s' p) (he : m s = m' s')
    (hr : InBounds n s.inb.requests → InBounds n s'.inb.requests) (hq : q → p) : Runs m s q :=
  ⟨fun hi => by rw [he]; exact h.inBounds (hr hi), fun h' => by rw [he]; exact h.ends (hq h')⟩

theorem Runs.of_out {r : Except Stop ClientPollResult} {t : ReadState n} (he : m s = (r, t))
    (hr : InBounds n s.inb.requests → InBounds n t.inb.requests) (hd : p → r ≠ .error .diverges) :
    Runs m s p :=
  ⟨fun hi => by rw [he]; exact hr hi, fun h => by rw [he]; exact hd h⟩

variable (b socket)

theorem readFrame_start (loop : ℕ → ReadM n ClientPollResult) {o : ℕ} {u : List Byte}
    {events : List RecvEvent} (h : Holds s o u events) (hu : sizeBytes ≤ u.length) (r : ℕ) :
    ∃ s', readFrame b socket loop r s =
        readBody b socket loop (lengthOf b u) (subSize r sizeBytes) s' ∧
      s'.inb.buffer.offset = o + sizeBytes ∧ s'.inb.requests = s.inb.requests := by
  have hn := h.fits
  have ho := h.offset
  refine ⟨{ inb := { s.inb with buffer := s.inb.buffer.withOffset (s.inb.buffer.offset + sizeBytes) },
            session := s.session.headed b u }, ?_, by simp [ho], rfl⟩
  rw [readFrame, bind_ok (nextPacketSize_eq b h hu),
    bind_ok (onBuffer_ok (Buffer.offsetBy_of_le b _ (by dsimp only; omega)))]
  rfl

/-- Behind the packet that is taken next, the count has wrapped. -/
theorem readBody_wrapped (loop : ℕ → ReadM n ClientPollResult) {packetSize r : ℕ}
    (hw : Wrapped s r) (hv : ∃ v : PacketSize, v.toSizeT = packetSize) :
    (∃ e, e ≠ .diverges ∧ readBody b socket loop packetSize r s = (.error e, s)) ∨
      ∃ s' r', readBody b socket loop packetSize r s = loop r' s' ∧ Wrapped s' r' ∧
        s.inb.buffer.offset ≤ s'.inb.buffer.offset ∧ s'.inb.requests = s.inb.requests := by
  have hsize := s.inb.buffer.size_lt
  obtain ⟨hle, hlt, hpast⟩ := hw
  by_cases hp : n ≤ packetSize
  · exact Or.inl ⟨_, by split_ifs <;> simp, readBody_tooLarge b socket loop hp r⟩
  have hstart : readBody b socket loop packetSize r s = (do
      takePacket b socket packetSize
      let bytesToRead := subSize r packetSize
      if 0 < bytesToRead then loop bytesToRead else return { read := true } :
        ReadM n ClientPollResult) s := by
    rw [readBody, bind_ok (checkPacketSize_ok b (by omega)), bind_ok (readExtra_enough b (by omega))]
  rcases takePacket_cases (s := s) b socket (by omega) hv with ⟨e, he, hr⟩ | ⟨s', hr, ho, hn, hq, -⟩
  · exact Or.inl ⟨e, he, hstart.trans (bind_error hr)⟩
  · refine Or.inr ⟨s', r - packetSize, ?_, ⟨by omega, by omega, by omega⟩, by omega, hq⟩
    rw [hstart, bind_ok hr, subSize_of_le (by omega) (by omega), if_pos (by omega)]

/-- **Once the count has wrapped** the loop asks for nothing, and runs until a check or
an access fails. -/
theorem multiShotLoop_wrapped (fuel : ℕ) :
    ∀ (s : ReadState n) (r : ℕ), Wrapped s r → ∃ e s',
      multiShotLoop b socket fuel r s = (.error e, s') ∧ s'.inb.requests = s.inb.requests ∧
        (n < fuel + s.inb.buffer.offset → e ≠ .diverges) := by
  induction fuel with
  | zero => exact fun s r hw => ⟨.diverges, s, rfl, rfl, fun h => absurd h (by have := hw.le; omega)⟩
  | succ fuel ih =>
    intro s r hw
    have hsize := s.inb.buffer.size_lt
    obtain ⟨hle, hlt, hpast⟩ := hw
    have hr : sizeBytes ≤ r := by
      simp only [sizeBytes]
      omega
    have hstart : multiShotLoop b socket (fuel + 1) r s =
        readFrame b socket (multiShotLoop b socket fuel) r s := by
      rw [multiShotLoop, bind_ok (refill_enough b hr)]
    by_cases hn : n < s.inb.buffer.offset + sizeBytes
    · refine ⟨.outOfBounds, { s with session := s.session.count }, hstart.trans ?_, rfl,
        fun _ => by decide⟩
      rw [readFrame, bind_error (nextPacketSize_past b hn)]
    obtain ⟨u, hu, hh⟩ := holds_window (s := s) (o := s.inb.buffer.offset) (r := sizeBytes) rfl (by omega)
    obtain ⟨s', hs', ho, hq⟩ := readFrame_start b socket (multiShotLoop b socket fuel) hh hu.ge r
    rw [subSize_of_le hr hlt] at hs'
    have hw' : Wrapped s' (r - sizeBytes) := ⟨by omega, by omega, by omega⟩
    rcases readBody_wrapped b socket (multiShotLoop b socket fuel) hw' ⟨_, rfl⟩ with
      ⟨e, he, hb⟩ | ⟨s'', r', hb, hw'', ho', hq'⟩
    · exact ⟨e, s', hstart.trans (hs'.trans hb), hq, fun _ => he⟩
    · obtain ⟨e, t, ht, hqt, hd⟩ := ih s'' r' hw''
      refine ⟨e, t, hstart.trans (hs'.trans (hb.trans ht)), by rw [hqt, hq', hq], fun hf => hd ?_⟩
      simp only [sizeBytes] at ho
      omega

theorem readFrame_short {o : ℕ} {u : List Byte} {events : List RecvEvent} (fuel : ℕ)
    (h : Holds s o u events) (hu : u.length = 1) : ∃ e s',
      readFrame b socket (multiShotLoop b socket fuel) u.length s = (.error e, s') ∧
        s'.inb.requests = s.inb.requests ∧ (n < fuel + o + sizeBytes → e ≠ .diverges) := by
  have hsize := s.inb.buffer.size_lt
  have ho := h.offset
  have hn := h.fits
  by_cases hpast : n < s.inb.buffer.offset + sizeBytes
  · refine ⟨.outOfBounds, { s with session := s.session.count }, ?_, rfl, fun _ => by decide⟩
    rw [readFrame, bind_error (nextPacketSize_past b hpast)]
  obtain ⟨w, hw, hh⟩ := holds_window (s := s) (r := sizeBytes) ho (by omega)
  obtain ⟨s', hs', ho', hq⟩ := readFrame_start b socket (multiShotLoop b socket fuel) hh hw.ge u.length
  have hsub : subSize u.length sizeBytes = 2 ^ 64 - 1 := by rw [hu]; rfl
  have hwrap : Wrapped s' (subSize u.length sizeBytes) := by
    rw [hsub]
    exact ⟨by omega, by omega, by simp only [sizeBytes] at ho'; omega⟩
  rcases readBody_wrapped b socket (multiShotLoop b socket fuel) hwrap ⟨_, rfl⟩ with
    ⟨e, he, hb⟩ | ⟨s2, r2, hb, hw2, ho2, hq2⟩
  · exact ⟨e, s', hs'.trans hb, hq, fun _ => he⟩
  · obtain ⟨e, t, ht, hqt, hd⟩ := multiShotLoop_wrapped b socket fuel s2 r2 hw2
    exact ⟨e, t, hs'.trans (hb.trans ht), by rw [hqt, hq2, hq], fun hf => hd (by omega)⟩

/-- A payload has ended early: the count is less than what is taken from it. -/
theorem readBody_short {packetSize o : ℕ} {v : List Byte} {events : List RecvEvent} (fuel : ℕ)
    (h : Holds s o v events) (hp : packetSize < n) (hv : ∃ v : PacketSize, v.toSizeT = packetSize)
    (hl : v.length + (offer b (packetSize - v.length) events {}).bytes.length < packetSize)
    (ha : (offer b (packetSize - v.length) events {}).accepted) : ∃ e s',
      readBody b socket (multiShotLoop b socket fuel) packetSize v.length s = (.error e, s') ∧
        (InBounds n s.inb.requests → InBounds n s'.inb.requests) ∧ (n < fuel → e ≠ .diverges) := by
  have hsize := s.inb.buffer.size_lt
  have hcheck := checkPacketSize_ok (s := s) b hp
  rcases readExtra_cases b h (by omega) hp with ⟨h', -⟩ | ⟨h', -⟩ | ⟨-, s1, hs1, hh1, hf1⟩
  · exact absurd h' (Offer.not_aborted ha)
  · exact absurd h' (Offer.not_refused ha)
  have ho1 := hh1.offset
  rcases takePacket_cases (s := s1) b socket hp hv with ⟨e, he, hr⟩ | ⟨s2, hr, ho2, hn2, hq2, -⟩
  · refine ⟨e, s1, ?_, hf1.inBounds, fun _ => he⟩
    rw [readBody, bind_ok hcheck, bind_ok hs1]
    exact bind_error hr
  have hsub : subSize (v.length + (offer b (packetSize - v.length) events {}).bytes.length)
      packetSize = v.length + (offer b (packetSize - v.length) events {}).bytes.length +
        2 ^ 64 - packetSize := Nat.mod_eq_of_lt (by omega)
  have hw2 : Wrapped s2 (subSize (v.length +
      (offer b (packetSize - v.length) events {}).bytes.length) packetSize) := by
    rw [hsub]
    exact ⟨by omega, by omega, by omega⟩
  obtain ⟨e, t, ht, hqt, hd⟩ := multiShotLoop_wrapped b socket fuel s2 _ hw2
  refine ⟨e, t, ?_, ?_, fun hf => hd (by omega)⟩
  · rw [readBody, bind_ok hcheck, bind_ok hs1]
    apply (bind_ok hr).trans
    rw [if_pos (by rw [hsub]; omega), ht]
  · rw [hqt, hq2]
    exact hf1.inBounds

theorem readBody_whole (loop : ℕ → ReadM n ClientPollResult) {packetSize o : ℕ} {v : List Byte}
    {events : List RecvEvent} (h : Holds s o v events) (hp : packetSize < n)
    (hv : ∃ v : PacketSize, v.toSizeT = packetSize)
    (hl : v.length < packetSize)
    (hw : v.length + (offer b (packetSize - v.length) events {}).bytes.length = packetSize)
    (ha : (offer b (packetSize - v.length) events {}).accepted) :
    ∃ out s', readBody b socket loop packetSize v.length s = (out, s') ∧
      (InBounds n s.inb.requests → InBounds n s'.inb.requests) ∧ out ≠ .error .diverges ∧
      (b.asserts = true → ∀ r, out = .ok r → commandSize ≤ packetSize) := by
  have hsize := s.inb.buffer.size_lt
  have hcheck := checkPacketSize_ok (s := s) b hp
  rcases readExtra_cases b h hl hp with ⟨h', -⟩ | ⟨h', -⟩ | ⟨-, s1, hs1, hh1, hf1⟩
  · exact absurd h' (Offer.not_aborted ha)
  · exact absurd h' (Offer.not_refused ha)
  rcases takePacket_cases (s := s1) b socket hp hv with ⟨e, he, hr⟩ | ⟨s2, hr, -, -, hq2, hc⟩
  · refine ⟨.error e, s1, ?_, hf1.inBounds, by simpa using he, by simp⟩
    rw [readBody, bind_ok hcheck, bind_ok hs1]
    exact bind_error hr
  · refine ⟨.ok { read := true }, s2, ?_, ?_, by simp, fun hb _ _ => hc hb⟩
    · rw [readBody, bind_ok hcheck, bind_ok hs1]
      apply (bind_ok hr).trans
      rw [hw, subSize_of_le le_rfl (by omega), Nat.sub_self, if_neg (lt_irrefl 0)]
      rfl
    · rw [hq2]
      exact hf1.inBounds

/-- What one iteration leaves to the next, from the packet size on. -/
theorem readBody_runs {packetSize o : ℕ} {v : List Byte} {events : List RecvEvent} (fuel : ℕ)
    (h : Holds s o v events) (hv : ∃ v : PacketSize, v.toSizeT = packetSize)
    (hfuel : p → n < fuel)
    (hloop : ∀ (s' : ReadState n) (r : ℕ), o ≤ s'.inb.buffer.offset →
      s'.inb.buffer.offset + r ≤ n → Runs (multiShotLoop b socket fuel r) s' p) :
    Runs (readBody b socket (multiShotLoop b socket fuel) packetSize v.length) s p := by
  have hsize := s.inb.buffer.size_lt
  have hn := h.fits
  have ho := h.offset
  by_cases hp : n ≤ packetSize
  · exact .of_out (readBody_tooLarge b socket _ hp _) id (fun _ => by split_ifs <;> simp)
  have hcheck := checkPacketSize_ok (s := s) b (show packetSize < n by omega)
  by_cases hl : v.length < packetSize
  · have hle := offer_length_le b (packetSize - v.length) events {}
    rcases readExtra_cases b h hl (by omega) with ⟨-, s1, hs1, hf1⟩ | ⟨-, s1, hs1, -, hf1⟩ | ⟨ha, -⟩
    · refine .of_out (r := .error .assertion) ?_ hf1.inBounds (fun _ => by simp)
      rw [readBody, bind_ok hcheck, bind_error hs1]
    · refine .of_out (r := .ok { terminate := true })
        (t := { s1 with session := s1.session.close }) ?_ hf1.inBounds (fun _ => by simp)
      rw [readBody, bind_ok hcheck, bind_ok hs1]
      rfl
    · rcases (show v.length + (offer b (packetSize - v.length) events {}).bytes.length ≤ packetSize by
        omega).lt_or_eq with hlt | heq
      · obtain ⟨e, t, ht, hi, hd⟩ := readBody_short b socket fuel h (by omega) hv hlt ha
        exact .of_out ht hi (fun hp => by simpa using hd (hfuel hp))
      · obtain ⟨out, t, ht, hi, hd, -⟩ := readBody_whole b socket (multiShotLoop b socket fuel) h
          (by omega) hv hl heq ha
        exact .of_out ht hi (fun _ => hd)
  · rcases takePacket_cases (s := s) b socket (by omega) hv with
      ⟨e, he, hr⟩ | ⟨s2, hr, ho2, hn2, hq2, -⟩
    · refine .of_out (r := .error e) ?_ id (fun _ => by simpa using he)
      rw [readBody, bind_ok hcheck, bind_ok (readExtra_enough b (by omega))]
      exact bind_error hr
    have hstart : readBody b socket (multiShotLoop b socket fuel) packetSize v.length s =
        (if 0 < v.length - packetSize then multiShotLoop b socket fuel (v.length - packetSize)
          else return { read := true } : ReadM n ClientPollResult) s2 := by
      rw [readBody, bind_ok hcheck, bind_ok (readExtra_enough b (by omega)),
        ← subSize_of_le (show packetSize ≤ v.length by omega) (by omega)]
      exact bind_ok hr
    split_ifs at hstart with hpos
    · exact (hloop s2 _ (by omega) (by omega)).of_eq hstart (by rw [hq2]; exact id) id
    · exact .of_out hstart (by rw [hq2]; exact id) (fun _ => by simp)

theorem multiShotLoop_runs (fuel : ℕ) :
    ∀ (s : ReadState n) (r : ℕ), s.inb.buffer.offset + r ≤ n →
      Runs (multiShotLoop b socket fuel r) s (2 * n + 1 < fuel + s.inb.buffer.offset) := by
  induction fuel with
  | zero =>
    intro s r hr
    exact .of_out (r := .error .diverges) rfl id (fun h => absurd h (by omega))
  | succ fuel ih =>
    intro s r hr
    obtain ⟨u, rfl, h⟩ := holds_window rfl hr
    -- an iteration that has a whole length field
    have hwhole : ∀ {s' : ReadState n} {v : List Byte} {events : List RecvEvent},
        Holds s' s.inb.buffer.offset v events → sizeBytes ≤ v.length →
        Runs (readFrame b socket (multiShotLoop b socket fuel) v.length) s'
          (2 * n + 1 < fuel + 1 + s.inb.buffer.offset) := by
      intro s' v events hh hv
      obtain ⟨s2, hs2, hh2, hf2⟩ := readFrame_eq b socket (multiShotLoop b socket fuel) hh hv
      refine (readBody_runs b socket fuel hh2 ⟨_, rfl⟩ (by omega) ?_).of_eq hs2 hf2.inBounds id
      intro s3 r3 ho3 hr3
      exact (ih s3 r3 hr3).of_eq rfl id (by simp only [sizeBytes] at ho3; omega)
    by_cases hu : sizeBytes ≤ u.length
    · exact (hwhole h hu).of_eq (multiShotLoop_refilled b socket (refill_enough b hu) fuel) id id
    rcases refill_cases b h (by omega) with ⟨-, s1, hs1, hf1⟩ | ⟨-, s1, hs1, -, hf1⟩ |
      ⟨ha, s1, hs1, hh1, hf1⟩
    · refine .of_out (r := .error .assertion) ?_ hf1.inBounds (fun _ => by simp)
      rw [multiShotLoop, bind_error hs1]
    · refine .of_out (r := .ok { terminate := true })
        (t := { s1 with session := s1.session.close }) ?_ hf1.inBounds (fun _ => by simp)
      rw [multiShotLoop, bind_ok hs1]
      rfl
    rw [← List.length_append] at hs1
    have hrun := multiShotLoop_refilled b socket hs1 fuel
    by_cases h2 : sizeBytes ≤ (u ++ (offerOnce b (n - (s.inb.buffer.offset + u.length))
        s.inb.events).bytes).length
    · exact (hwhole hh1 h2).of_eq hrun hf1.inBounds id
    · have hpos := List.length_pos_iff.mpr ha.1
      obtain ⟨e, t, ht, hq, hd⟩ := readFrame_short b socket fuel hh1
        (by simp only [sizeBytes, List.length_append] at h2 ⊢; omega)
      exact .of_out (hrun.trans ht) (by rw [hq]; exact hf1.inBounds)
        (fun hf => by simpa using hd (by omega))

theorem readMultiShot_runs (s : ReadState n) : Runs (readMultiShot b socket) s True := by
  have hset := onBuffer_start b s
  refine (multiShotLoop_runs b socket (2 * n + 2) _ 0 (Nat.zero_le n)).of_eq (bind_ok hset) id ?_
  intro _
  dsimp only [Buffer.withOffset_offset]
  omega

section Asserts

variable {b} {o : ℕ} {u u' : List Byte} {events events' : List RecvEvent} {ses : Session}
  {r : ClientPollResult}

/-- The rest of a payload is refused, or it comes whole, if the body returns. -/
theorem readBody_ok_extra (hb : b.asserts = true) (fuel : ℕ) (hh : HasHeader b n o u events u' events')
    (h : Holds s (o + sizeBytes) (u'.drop sizeBytes) events') (hp : lengthOf b u' < n)
    (hl : (u'.drop sizeBytes).length < lengthOf b u')
    (hr : (readBody b socket (multiShotLoop b socket fuel) (lengthOf b u')
      (u'.drop sizeBytes).length s).1 = .ok r) :
    ∃ events'' ses'', Reads b n socket o u events ses (.ok r) events'' ses'' := by
  have hval : ∃ v : PacketSize, v.toSizeT = lengthOf b u' := ⟨_, rfl⟩
  have hle := offer_length_le b (lengthOf b u' - (u'.drop sizeBytes).length) events' {}
  set off := offer b (lengthOf b u' - (u'.drop sizeBytes).length) events' {} with hoff
  rcases off.accepted_or with ha | hrf | ha
  · rcases readExtra_cases b h hl hp with ⟨-, s1, hs1, -⟩ | ⟨h', -⟩ | ⟨h', -⟩
    · rw [readBody, bind_ok (checkPacketSize_ok b hp), bind_error hs1] at hr
      cases hr
    · exact absurd ha h'.1
    · exact absurd ha (Offer.not_aborted h')
  · have he := (readBody_extraRefused b socket (multiShotLoop b socket fuel) h hp hl hrf).out
    rw [hr] at he
    rw [he]
    exact ⟨_, _, .extraRefused hh hp hl hrf⟩
  · have hshort : (u'.drop sizeBytes).length + off.bytes.length ≤ lengthOf b u' := by omega
    rcases hshort.lt_or_eq with hlt | heq
    · obtain ⟨e, t, ht, -⟩ := readBody_short b socket fuel h hp hval hlt ha
      rw [ht] at hr
      cases hr
    · obtain ⟨out, t, ht, -, -, hc⟩ := readBody_whole b socket (multiShotLoop b socket fuel) h hp
        hval hl heq ha
      rw [ht] at hr
      have hlen : off.bytes.length = lengthOf b u' - (u'.drop sizeBytes).length := by omega
      have hcom := offer_whole hlen
      have hc4 := hc hb r hr
      have he := (readBody_extra b socket (multiShotLoop b socket fuel) h hp hl hc4 hval hcom).out
      rw [ht] at he
      rw [← hr, he]
      exact ⟨_, _, .extra hh hp hl hc4 hcom⟩

/-- With the asserts in, what the body returns is what `Reads` derives, if this holds of the
iterations behind it. -/
theorem readBody_ok (hb : b.asserts = true) (fuel : ℕ) (hh : HasHeader b n o u events u' events')
    (h : Holds s (o + sizeBytes) (u'.drop sizeBytes) events') (hs : s.session = ses.headed b u')
    (hloop : ∀ (s' : ReadState n) o' v events', Holds s' o' v events' →
      (multiShotLoop b socket fuel v.length s').1 = .ok r →
      ∃ events'' ses'', Reads b n socket o' v events' s'.session (.ok r) events'' ses'')
    (hr : (readBody b socket (multiShotLoop b socket fuel) (lengthOf b u')
      (u'.drop sizeBytes).length s).1 = .ok r) :
    ∃ events'' ses'', Reads b n socket o u events ses (.ok r) events'' ses'' := by
  have hval : ∃ v : PacketSize, v.toSizeT = lengthOf b u' := ⟨_, rfl⟩
  by_cases hp : n ≤ lengthOf b u'
  · rw [readBody_tooLarge b socket _ hp] at hr
    cases hr
  have hp' : lengthOf b u' < n := by omega
  by_cases hl : (u'.drop sizeBytes).length < lengthOf b u'
  · exact readBody_ok_extra socket hb fuel hh h hp' hl hr
  rcases takePacket_cases (s := s) b socket hp' hval with ⟨e, he, hx⟩ | ⟨s2, hx, -, -, -, hc⟩
  · rw [readBody, bind_ok (checkPacketSize_ok b hp'), bind_ok (readExtra_enough b (by omega))] at hr
    dsimp only at hr
    rw [bind_error hx] at hr
    cases hr
  have hc4 := hc hb
  have ht : Takes b (lengthOf b u') (u'.drop sizeBytes) := ⟨by omega, by omega, fun _ => hc4⟩
  obtain ⟨s3, hs3, hh3, hf3⟩ := readBody_takes b socket (multiShotLoop b socket fuel) h hp' ht hval
  rw [hs3] at hr
  split_ifs at hr with hpos
  · rw [← List.length_drop] at hr
    obtain ⟨e2, ses2, hreads⟩ := hloop s3 _ _ _ hh3 hr
    rw [hf3.session, hs] at hreads
    exact ⟨e2, ses2, .next hh hp' ht (by omega) hreads⟩
  · cases hr
    exact ⟨_, _, .last hh hp' ht (by omega)⟩

/-- **With the asserts in, nothing returns but what `Reads` derives.** -/
theorem multiShotLoop_ok (hb : b.asserts = true) (fuel : ℕ) :
    ∀ (s : ReadState n) (o : ℕ) (u : List Byte) (events : List RecvEvent), Holds s o u events →
      (multiShotLoop b socket fuel u.length s).1 = .ok r →
      ∃ events' ses', Reads b n socket o u events s.session (.ok r) events' ses' := by
  induction fuel with
  | zero =>
    intro s o u events h hr
    cases hr
  | succ fuel ih =>
    intro s o u events h hr
    by_cases hu : sizeBytes ≤ u.length
    · obtain ⟨s2, hs2, hh2, hf2⟩ := multiShotLoop_headed b socket h (.enough hu) fuel
      rw [hs2] at hr
      exact readBody_ok socket hb fuel (.enough hu) hh2 hf2.session ih hr
    have hu' : u.length < sizeBytes := by omega
    rcases (offerOnce b (n - (o + u.length)) events).accepted_or with ha | hrf | ha
    · rcases refill_cases b h hu' with ⟨-, s1, hs1, -⟩ | ⟨h', -⟩ | ⟨h', -⟩
      · rw [multiShotLoop, bind_error hs1] at hr
        cases hr
      · exact absurd ha h'.1
      · exact absurd ha (Offer.not_aborted h')
    · rcases refill_cases b h hu' with ⟨h', -⟩ | ⟨-, s1, hs1, -, hf1⟩ | ⟨h', -⟩
      · exact absurd h' hrf.1
      · rw [multiShotLoop, bind_ok hs1] at hr
        cases hr
        exact ⟨_, _, .refused hu' hrf⟩
      · exact absurd hrf (Offer.not_refused h')
    · by_cases h2 : sizeBytes ≤ (u ++ (offerOnce b (n - (o + u.length)) events).bytes).length
      · obtain ⟨s2, hs2, hh2, hf2⟩ := multiShotLoop_headed b socket h (.more hu' ha h2) fuel
        rw [hs2] at hr
        exact readBody_ok socket hb fuel (.more hu' ha h2) hh2 hf2.session ih hr
      · rcases refill_cases b h hu' with ⟨h', -⟩ | ⟨h', -⟩ | ⟨-, s1, hs1, hh1, -⟩
        · exact absurd h' (Offer.not_aborted ha)
        · exact absurd h' (Offer.not_refused ha)
        · have hpos := List.length_pos_iff.mpr ha.1
          obtain ⟨e, t, ht, -⟩ := readFrame_short b socket fuel hh1
            (by simp only [sizeBytes, List.length_append] at h2 ⊢; omega)
          rw [multiShotLoop_refilled b socket hs1, ← List.length_append, ht] at hr
          cases hr

end Asserts

end Overrun

end PollServer
