import PollServer.Read.Overrun
import PollServer.Read.Points
import PollServer.Read.Stream

/-! What the multi-shot loop knows of the bytes it has received. `bytesToRead` counts those that it
has not parsed as long as no length field comes in two pieces at the start of the call and no receive
of a payload ends early. -/

namespace PollServer

open Lib StopM NetworkPacket ReadM

section Accounting

variable {n : ℕ} {b : Build} {socket : ℤ}

/-- The count of the loop at `c` is right: these bytes of the stream have been received and are not
parsed, they lie at the offset, and they are enough for what is about to be done. -/
structure Tracked (stream : List Byte) (c : Cursor) (s : ReadState n) : Prop where
  fits : s.inb.buffer.offset + c.bytesToRead ≤ n
  count : c.parsed + c.bytesToRead + (arrived s.inb.events).length = stream.length
  unparsed : window s.inb.buffer.arr s.inb.buffer.offset c.bytesToRead =
    (stream.drop c.parsed).take c.bytesToRead
  header : c.point = .header → sizeBytes ≤ c.bytesToRead
  packet : ∀ packetSize, c.point = .packet packetSize → packetSize ≤ c.bytesToRead

/-- A call on `s` comes to `c`, in the state `s'`. -/
def Comes (b : Build) (socket : ℤ) (s : ReadState n) (c : Cursor) (s' : ReadState n) : Prop :=
  ∃ s0, onBuffer (·.setOffset b 0) s = (.ok (), s0) ∧
    Reaches (Cursor.turn b socket) ⟨.head, 0, 0⟩ s0 c s'

/-- The count is right wherever a call on `s` comes, and the call returns, unless an assert or the
check of a size ends it. -/
structure Tracks (b : Build) (socket : ℤ) (s : ReadState n) : Prop where
  points : ∀ c s', Comes b socket s c s' → Tracked (arrived s.inb.events) c s'
  ends : ∀ stop, (readForSingleSocket b .multi socket s).1 = .error stop →
    stop = .assertion ∨ stop = .invalidArgument

/-- With `u` at the offset `o`, the received bytes run out on a payload: it lacks `need` bytes, with
`events'` to come. -/
inductive Lacks (b : Build) (n : ℕ) :
    ℕ → List Byte → List RecvEvent → ℕ → List RecvEvent → Prop where
  | here {o u events u' events'} (hh : HasHeader b n o u events u' events')
      (hp : lengthOf b u' < n) (hv : (u'.drop sizeBytes).length < lengthOf b u') :
      Lacks b n o u events (lengthOf b u' - (u'.drop sizeBytes).length) events'
  | next {o u events u' events' need events''} (hh : HasHeader b n o u events u' events')
      (hp : lengthOf b u' < n) (hv : lengthOf b u' < (u'.drop sizeBytes).length)
      (hl : Lacks b n (o + sizeBytes + lengthOf b u') ((u'.drop sizeBytes).drop (lengthOf b u'))
        events' need events'') :
      Lacks b n o u events need events''

/-- No receive of what a payload lacks breaks off. -/
def Supplied (b : Build) (n o : ℕ) (u : List Byte) (events : List RecvEvent) : Prop :=
  ∀ need events', Lacks b n o u events need events' → ¬BreaksOff b need events'

/-- `u` is received and unparsed at the offset `o`, and `parsed` bytes of the stream lie before it. -/
structure Unparsed (stream : List Byte) (parsed : ℕ) (s : ReadState n) (o : ℕ) (u : List Byte)
    (events : List RecvEvent) : Prop where
  holds : Holds s o u events
  stream : ∃ front, front.length = parsed ∧ stream = front ++ (u ++ arrived events)

/-- Frames are to come, of which the last may be cut off. -/
def OnFrames (b : Build) (bytes : List Byte) : Prop :=
  ∃ ps, (∀ q ∈ ps, Framed q) ∧ bytes <+: wire b.order ps

/-- The payload of a frame is to come, and frames behind it. -/
def InFrame (b : Build) (packetSize : ℕ) (bytes : List Byte) : Prop :=
  (∃ v : PacketSize, v.toSizeT = packetSize) ∧ ∃ q ps, Framed q ∧ (payload q).length = packetSize ∧
    (∀ p ∈ ps, Framed p) ∧ bytes <+: payload q ++ wire b.order ps

theorem OnFrames.inFrame {u w : List Byte} (h : OnFrames b (u ++ w)) (hu : sizeBytes ≤ u.length)
    (hp : lengthOf b u < 2 ^ 63) : InFrame b (lengthOf b u) (u.drop sizeBytes ++ w) := by
  obtain ⟨ps, hps, hprefix⟩ := h
  obtain ⟨q, qs, rfl, hu', hrest⟩ := front_header hprefix hu
  have hq := hps q List.mem_cons_self
  refine ⟨⟨_, rfl⟩, q, qs, hq, ?_, fun p hp => hps p (List.mem_cons_of_mem q hp), hrest⟩
  rw [hu'] at hp ⊢
  exact (lengthOf_framed b hq hp).symm

theorem InFrame.behind {packetSize : ℕ} {v w : List Byte} (h : InFrame b packetSize (v ++ w))
    (hp : packetSize ≤ v.length) : OnFrames b (v.drop packetSize ++ w) := by
  obtain ⟨-, q, ps, -, hq, hps, hprefix⟩ := h
  rw [← List.take_append_drop packetSize v, List.append_assoc] at hprefix
  exact ⟨ps, hps, (prefix_split hprefix (by rw [List.length_take, hq]; omega)).2⟩

theorem InFrame.command {packetSize : ℕ} {bytes : List Byte} (h : InFrame b packetSize bytes) :
    commandSize ≤ packetSize := by
  obtain ⟨-, q, -, hframed, rfl, -⟩ := h
  rw [payload, List.length_append, hframed.command]
  exact Nat.le_add_right _ _

variable {stream : List Byte} {s s' : ReadState n} {k o packetSize : ℕ} {u : List Byte}
  {events : List RecvEvent}

theorem Unparsed.tracked (h : Unparsed stream k s o u events) {point : Point}
    (hh : point = .header → sizeBytes ≤ u.length)
    (hp : ∀ packetSize, point = .packet packetSize → packetSize ≤ u.length) :
    Tracked stream ⟨point, u.length, k⟩ s := by
  obtain ⟨hholds, front, hfront, hstream⟩ := h
  refine ⟨?_, ?_, ?_, hh, hp⟩
  · rw [hholds.offset]
    exact hholds.fits
  · rw [hstream, hholds.events]
    simp only [List.length_append]
    omega
  · rw [hholds.offset, hholds.bytes, hstream, List.drop_left' hfront]
    exact (List.take_left' rfl).symm

theorem Unparsed.received (h : Unparsed stream k s o u events) {o' : ℕ} {u' : List Byte}
    {events' : List RecvEvent} (hs : Holds s' o' u' events')
    (hsame : u ++ arrived events = u' ++ arrived events') : Unparsed stream k s' o' u' events' :=
  ⟨hs, hsame ▸ h.stream⟩

theorem Unparsed.advance (h : Unparsed stream k s o u events) {m : ℕ} (hm : m ≤ u.length) {o' : ℕ}
    (hs : Holds s' o' (u.drop m) events) : Unparsed stream (k + m) s' o' (u.drop m) events := by
  obtain ⟨-, front, hfront, hstream⟩ := h
  refine ⟨hs, front ++ u.take m, ?_, ?_⟩
  · rw [List.length_append, List.length_take, hfront, Nat.min_eq_left hm]
  · rw [List.append_assoc, ← List.append_assoc (u.take m), List.take_append_drop]
    exact hstream

section Turns

variable (b socket)

/-- Past the first refill there is a whole length field, or the stream has come to a single byte. -/
theorem Unparsed.head (h : Unparsed stream k s o u events) :
    (∃ s', Cursor.turn b socket ⟨.head, u.length, k⟩ s = (.error .assertion, s')) ∨
    (∃ r s', Cursor.turn b socket ⟨.head, u.length, k⟩ s = (.ok (.inl r), s')) ∨
    ∃ u' events' s', Cursor.turn b socket ⟨.head, u.length, k⟩ s =
        (.ok (.inr ⟨.header, u'.length, k⟩), s') ∧ Unparsed stream k s' o u' events' ∧
      (HasHeader b n o u events u' events' ∨
        u = [] ∧ (offerOnce b (n - o) events).bytes.length = 1) := by
  by_cases hu : sizeBytes ≤ u.length
  · exact .inr (.inr ⟨u, events, s, turn_head (refill_enough b hu), h, .inl (.enough hu)⟩)
  have hshort := not_le.mp hu
  rcases refill_cases b h.holds hshort with
    ⟨-, s', hrefill, -⟩ | ⟨-, s', hrefill, -, -⟩ | ⟨ha, s', hrefill, hholds, -⟩
  · exact .inl ⟨s', turn_head_stop hrefill⟩
  · exact .inr (.inl ⟨_, _, turn_head_fails hrefill⟩)
  refine .inr (.inr ⟨_, _, s', turn_head (hrefill.trans (by rw [List.length_append])),
    h.received hholds (by rw [List.append_assoc, ← arrived_offerOnce]), ?_⟩)
  by_cases h2 : sizeBytes ≤ (u ++ (offerOnce b (n - (o + u.length)) events).bytes).length
  · exact .inl (.more hshort ha h2)
  · have hpos := List.length_pos_iff.mpr ha.1
    simp only [List.length_append, sizeBytes] at h2
    obtain rfl : u = [] := List.length_eq_zero_iff.mp (by omega)
    rw [List.length_nil, Nat.add_zero] at h2 hpos
    exact .inr ⟨rfl, by omega⟩

theorem Unparsed.header (h : Unparsed stream k s o u events) (hu : sizeBytes ≤ u.length) :
    ∃ s', Cursor.turn b socket ⟨.header, u.length, k⟩ s =
        (.ok (.inr ⟨.payload (lengthOf b u), (u.drop sizeBytes).length, k + sizeBytes⟩), s') ∧
      Unparsed stream (k + sizeBytes) s' (o + sizeBytes) (u.drop sizeBytes) events := by
  have hsize := s.inb.buffer.size_lt
  have hn := h.holds.fits
  obtain ⟨s', hmove, hholds, -⟩ := offsetBy_holds b
    (s := { s with session := s.session.count.decoded (lengthOf b u) })
    ⟨h.holds.offset, hn, h.holds.bytes, h.holds.events⟩ hu
  refine ⟨s', ?_, h.advance hu hholds⟩
  rw [turn_header (nextPacketSize_eq b h.holds hu) hmove, subSize_of_le hu (by omega), List.length_drop]

theorem turn_payload_enough (hp : packetSize < n) (hu : packetSize ≤ u.length) :
    Cursor.turn b socket ⟨.payload packetSize, u.length, k⟩ s =
      (.ok (.inr ⟨.packet packetSize, u.length, k⟩), s) :=
  turn_payload (checkPacketSize_ok b hp) (readExtra_enough b hu)

theorem Unparsed.payload_extra (h : Unparsed stream k s o u events) (hp : packetSize < n)
    (hu : u.length < packetSize) :
    let off := offer b (packetSize - u.length) events {}
    (off.ending = .aborted ∧
      ∃ s', Cursor.turn b socket ⟨.payload packetSize, u.length, k⟩ s = (.error .assertion, s')) ∨
    (off.refused ∧
      ∃ r s', Cursor.turn b socket ⟨.payload packetSize, u.length, k⟩ s = (.ok (.inl r), s')) ∨
    (off.accepted ∧ ∃ s', Cursor.turn b socket ⟨.payload packetSize, u.length, k⟩ s =
        (.ok (.inr ⟨.packet packetSize, (u ++ off.bytes).length, k⟩), s') ∧
      Unparsed stream k s' 0 (u ++ off.bytes) off.rest) := by
  have hcheck := checkPacketSize_ok b (s := s) hp
  rcases readExtra_cases b h.holds hu hp with
    ⟨ha, s', hextra, -⟩ | ⟨hr, s', hextra, -, -⟩ | ⟨ha, s', hextra, hholds, -⟩
  · exact .inl ⟨ha, s', turn_payload_stop hcheck hextra⟩
  · exact .inr (.inl ⟨hr, _, _, turn_payload_fails hcheck hextra⟩)
  · refine .inr (.inr ⟨ha, s', ?_, h.received hholds (by rw [List.append_assoc, ← arrived_offer])⟩)
    rw [turn_payload hcheck hextra, List.length_append]

theorem Unparsed.packet (h : Unparsed stream k s o u events) (hp : packetSize ≤ u.length)
    (hc : commandSize ≤ packetSize) (hv : ∃ v : PacketSize, v.toSizeT = packetSize) :
    (u.length = packetSize ∧ ∃ r s', Cursor.turn b socket ⟨.packet packetSize, u.length, k⟩ s =
      (.ok (.inl r), s')) ∨
    (packetSize < u.length ∧ ∃ s', Cursor.turn b socket ⟨.packet packetSize, u.length, k⟩ s =
        (.ok (.inr ⟨.head, (u.drop packetSize).length, k + packetSize⟩), s') ∧
      Unparsed stream (k + packetSize) s' (o + packetSize) (u.drop packetSize) events) := by
  have hsize := s.inb.buffer.size_lt
  have hn := h.holds.fits
  have hsub := subSize_of_le hp (by omega)
  obtain ⟨s', htake, hholds, -⟩ := takePacket_holds b socket h.holds hp (by omega) (fun _ => hc) hv
  rcases hp.eq_or_lt with heq | hlt
  · exact .inl ⟨heq.symm, _, s', turn_packet_last htake (by omega)⟩
  · refine .inr ⟨hlt, s', ?_, h.advance hp hholds⟩
    rw [turn_packet htake (by omega), hsub, List.length_drop]

end Turns

/-- The invariant of the turns: what is received and unparsed, that frames are to come, and that what
payloads will lack is supplied. -/
inductive Sound (b : Build) (stream : List Byte) : Cursor → ReadState n → Prop where
  | head {k : ℕ} {s : ReadState n} {o : ℕ} {u : List Byte} {events : List RecvEvent}
      (h : Unparsed stream k s o u events)
      (hframes : OnFrames b (u ++ arrived events))
      (hfirst : u = [] → (offerOnce b (n - o) events).bytes.length ≠ 1)
      (hsupplied : Supplied b n o u events) : Sound b stream ⟨.head, u.length, k⟩ s
  | header {k : ℕ} {s : ReadState n} {o : ℕ} {u : List Byte} {events : List RecvEvent}
      (h : Unparsed stream k s o u events)
      (hframes : OnFrames b (u ++ arrived events)) (hu : sizeBytes ≤ u.length)
      (hsupplied : Supplied b n o u events) : Sound b stream ⟨.header, u.length, k⟩ s
  | payload {packetSize k : ℕ} {s : ReadState n} {o : ℕ} {u : List Byte} {events : List RecvEvent}
      (h : Unparsed stream k s o u events)
      (hframe : packetSize < n → InFrame b packetSize (u ++ arrived events))
      (hwhole : packetSize < n → u.length < packetSize → ¬BreaksOff b (packetSize - u.length) events)
      (hsupplied : packetSize < n → packetSize < u.length →
        Supplied b n (o + packetSize) (u.drop packetSize) events) :
      Sound b stream ⟨.payload packetSize, u.length, k⟩ s
  | packet {packetSize k : ℕ} {s : ReadState n} {o : ℕ} {u : List Byte} {events : List RecvEvent}
      (h : Unparsed stream k s o u events)
      (hframe : InFrame b packetSize (u ++ arrived events)) (hu : packetSize ≤ u.length)
      (hsupplied : packetSize < u.length → Supplied b n (o + packetSize) (u.drop packetSize) events) :
      Sound b stream ⟨.packet packetSize, u.length, k⟩ s

theorem Sound.tracked {c : Cursor} (h : Sound b stream c s) : Tracked stream c s := by
  cases h with
  | head h _ _ _ => exact h.tracked (fun hp => by cases hp) (fun _ hp => by cases hp)
  | header h _ hu _ => exact h.tracked (fun _ => hu) (fun _ hp => by cases hp)
  | payload h _ _ _ => exact h.tracked (fun hp => by cases hp) (fun _ hp => by cases hp)
  | packet h _ hu _ =>
    refine h.tracked (fun hp => by cases hp) fun _ hp => ?_
    cases hp
    exact hu

/-- What a turn from a sound cursor comes to. -/
inductive Onward (b : Build) (socket : ℤ) (stream : List Byte) (c : Cursor) (s : ReadState n) : Prop where
  | stops {e : Stop} {s' : ReadState n} (h : Cursor.turn b socket c s = (.error e, s'))
      (he : e = .assertion ∨ e = .invalidArgument)
  | ends {r : ClientPollResult} {s' : ReadState n} (h : Cursor.turn b socket c s = (.ok (.inl r), s'))
  | goes {c' : Cursor} {s' : ReadState n} (h : Cursor.turn b socket c s = (.ok (.inr c'), s'))
      (hs : Sound b stream c' s')

theorem onFrames_hasHeader {u' : List Byte} {events' : List RecvEvent}
    (h : OnFrames b (u ++ arrived events)) (hh : HasHeader b n o u events u' events') :
    OnFrames b (u' ++ arrived events') := by
  rw [← hh.stream.2]
  exact h

theorem Supplied.header {u' : List Byte} {events' : List RecvEvent} (h : Supplied b n o u events)
    (hh : HasHeader b n o u events u' events') : Supplied b n o u' events' := by
  have h2 := hh.stream.1
  have hsame : ∀ {u'' events''}, HasHeader b n o u' events' u'' events'' →
      HasHeader b n o u events u'' events'' := by
    intro u'' events'' hh'
    cases hh' with
    | enough _ => exact hh
    | more hu _ _ => exact absurd hu (not_lt.mpr h2)
  intro need events'' hl
  cases hl with
  | here hh' hp hv => exact h _ _ (.here (hsame hh') hp hv)
  | next hh' hp hv hl => exact h _ _ (.next (hsame hh') hp hv hl)

theorem Sound.onward {c : Cursor} (h : Sound b stream c s) (socket : ℤ) :
    Onward b socket stream c s := by
  have hsize := s.inb.buffer.size_lt
  cases h with
  | head h hframes hfirst hsupplied =>
    rcases h.head b socket with
      ⟨s', hturn⟩ | ⟨r, s', hturn⟩ | ⟨u', events', s', hturn, h', hh | ⟨hu, h1⟩⟩
    · exact .stops hturn (.inl rfl)
    · exact .ends hturn
    · exact .goes hturn (.header h' (onFrames_hasHeader hframes hh) hh.stream.1 (hsupplied.header hh))
    · exact absurd h1 (hfirst hu)
  | header h hframes hu hsupplied =>
    obtain ⟨s', hturn, h'⟩ := h.header b socket hu
    refine .goes hturn (.payload h' (fun hp => hframes.inFrame hu (by omega)) (fun hp hv => ?_)
      fun hp hv => ?_)
    · exact hsupplied _ _ (.here (.enough hu) hp hv)
    · exact fun need events' hl => hsupplied _ _ (.next (.enough hu) hp hv hl)
  | @payload packetSize _ _ o u events h hframe hwhole hsupplied =>
    by_cases hp : packetSize < n
    swap
    · refine .stops (turn_payload_refused (checkPacketSize_error b (not_lt.mp hp))) ?_
      split_ifs
      · exact .inl rfl
      · exact .inr rfl
    by_cases hu : packetSize ≤ u.length
    · exact .goes (turn_payload_enough b socket hp hu) (.packet h (hframe hp) hu (hsupplied hp))
    rcases h.payload_extra b socket hp (not_le.mp hu) with
      ⟨-, s', hturn⟩ | ⟨-, r, s', hturn⟩ | ⟨ha, s', hturn, h'⟩
    · exact .stops hturn (.inl rfl)
    · exact .ends hturn
    have hcomplete := offer_complete b _ _ _ (complete_of_accepted ha (hwhole hp (not_le.mp hu)))
    have hlength : (u ++ (offer b (packetSize - u.length) events {}).bytes).length = packetSize := by
      rw [List.length_append, hcomplete]
      omega
    refine .goes hturn (.packet h' ?_ hlength.ge fun hlt => absurd hlt (by omega))
    rw [List.append_assoc, ← arrived_offer]
    exact hframe hp
  | packet h hframe hu hsupplied =>
    rcases h.packet b socket hu hframe.command hframe.1 with
      ⟨-, r, s', hturn⟩ | ⟨hlt, s', hturn, h'⟩
    · exact .ends hturn
    · refine .goes hturn (.head h' (hframe.behind hu) (fun hnil => ?_) (hsupplied hlt))
      rw [List.drop_eq_nil_iff] at hnil
      omega

theorem unparsed_start (b : Build) (s : ReadState n) :
    ∃ s0, onBuffer (·.setOffset b 0) s = (.ok (), s0) ∧
      Unparsed (arrived s.inb.events) 0 s0 0 [] s.inb.events :=
  ⟨_, onBuffer_start b s, ⟨rfl, Nat.zero_le n, window_zero _ _, rfl⟩, [], rfl, rfl⟩

theorem readMultiShot_turns (socket : ℤ) {s0 : ReadState n}
    (h : onBuffer (·.setOffset b 0) s = (.ok (), s0)) :
    readForSingleSocket b .multi socket s =
        turns (Cursor.turn b socket) .diverges (4 * (2 * n + 2)) ⟨.head, 0, 0⟩ s0 ∧
      (readForSingleSocket b .multi socket s).1 ≠ .error .diverges :=
  ⟨(bind_ok h).trans (multiShotLoop_turns b socket _ 0 0 s0),
    (readMultiShot_runs b socket s).ends trivial⟩

theorem Onward.sound {c c' : Cursor} (h : Onward b socket stream c s)
    (hturn : Cursor.turn b socket c s = (.ok (.inr c'), s')) : Sound b stream c' s' := by
  rcases h with ⟨h, -⟩ | h | ⟨h, hs⟩ <;> rw [hturn] at h <;> cases h
  exact hs

theorem Onward.stopped {c : Cursor} {stop : Stop} (h : Onward b socket stream c s)
    (hturn : (Cursor.turn b socket c s).1 = .error stop) :
    stop = .assertion ∨ stop = .invalidArgument := by
  rcases h with ⟨h, he⟩ | h | ⟨h, -⟩ <;> rw [h] at hturn <;> cases hturn
  exact he

/-- A call that starts from a sound cursor is sound wherever it comes. -/
theorem Sound.tracks {s0 : ReadState n} (h : onBuffer (·.setOffset b 0) s = (.ok (), s0))
    (hs : Sound b (arrived s.inb.events) ⟨.head, 0, 0⟩ s0) : Tracks b socket s := by
  have hkeeps : ∀ c s', Reaches (Cursor.turn b socket) ⟨.head, 0, 0⟩ s0 c s' →
      Sound b (arrived s.inb.events) c s' := fun c s' hreach =>
    hreach.keeps (fun _ _ _ _ hc hturn => (hc.onward socket).sound hturn) hs
  refine ⟨?_, fun stop hstop => ?_⟩
  · rintro c s' ⟨s1, h1, hreach⟩
    obtain rfl : s0 = s1 := congrArg Prod.snd (h.symm.trans h1)
    exact (hkeeps c s' hreach).tracked
  · obtain ⟨hrun, hends⟩ := readMultiShot_turns socket h
    rw [hrun] at hstop hends
    rcases turns_error (Prod.ext hstop rfl) with rfl | ⟨c, s', hreach, hturn⟩
    · exact absurd hstop hends
    · exact ((hkeeps c s' hreach).onward socket).stopped hturn

theorem offerOnce_accepted {len : ℕ} (h : (offerOnce b len events).bytes ≠ []) :
    (offerOnce b len events).accepted := by
  refine ⟨h, .inl ?_⟩
  induction events with
  | nil => exact absurd rfl h
  | cons event rest ih =>
    cases event with
    | arrive bytes => exact if_neg h
    | fail errorCode =>
      unfold offerOnce at h ⊢
      split at h
      · exact absurd rfl h
      · exact absurd rfl h
      · split_ifs at h ⊢
        · exact absurd rfl h
        · exact ih h

/-- The first byte of a length field, alone. -/
theorem Unparsed.comes_split (h : Unparsed stream k s 0 [] events) (b : Build) (socket : ℤ)
    (h1 : (offerOnce b n events).bytes.length = 1) :
    ∃ s', Cursor.turn b socket ⟨.head, 0, k⟩ s = (.ok (.inr ⟨.header, 1, k⟩), s') := by
  have ha : (offerOnce b n events).accepted :=
    offerOnce_accepted (List.ne_nil_of_length_pos (by omega))
  rcases refill_cases b h.holds (by decide) with ⟨h', -⟩ | ⟨h', -⟩ | ⟨-, s', hrefill, -⟩
  · exact absurd h' (Offer.not_aborted ha)
  · exact absurd h' (Offer.not_refused ha)
  · refine ⟨s', turn_head (hrefill.trans ?_)⟩
    rw [show n - (0 + ([] : List Byte).length) = n from rfl, h1]
    rfl

/-- With a whole length field, the loop comes to the check of the size in it. -/
theorem Unparsed.comes_payload (h : Unparsed stream k s o u events) {u' : List Byte}
    {events' : List RecvEvent} (hh : HasHeader b n o u events u' events') (socket : ℤ) :
    ∃ s', Reaches (Cursor.turn b socket) ⟨.head, u.length, k⟩ s
        ⟨.payload (lengthOf b u'), (u'.drop sizeBytes).length, k + sizeBytes⟩ s' ∧
      Unparsed stream (k + sizeBytes) s' (o + sizeBytes) (u'.drop sizeBytes) events' := by
  obtain ⟨h2, s1, hrefill, hholds, -⟩ := refill_headed b h.holds hh
  obtain ⟨s2, hturn, h'⟩ := (h.received hholds hh.stream.2).header b socket h2
  exact ⟨s2, .turn (.turn .start (turn_head hrefill)) hturn, h'⟩

/-- The loop comes to construct a packet that has not wholly arrived. -/
theorem Lacks.comes {need : ℕ} {events' : List RecvEvent} (hl : Lacks b n o u events need events')
    (hb : BreaksOff b need events') (h : Unparsed stream k s o u events)
    (hframes : OnFrames b (u ++ arrived events)) (socket : ℤ) :
    ∃ packetSize r k' s', r < packetSize ∧
      Reaches (Cursor.turn b socket) ⟨.head, u.length, k⟩ s ⟨.packet packetSize, r, k'⟩ s' := by
  induction hl generalizing k s with
  | @here o u events u' events' hh hp hv =>
    obtain ⟨s1, hreach, h1⟩ := h.comes_payload hh socket
    have hle := offer_length_le b (lengthOf b u' - (u'.drop sizeBytes).length) events' {}
    rcases h1.payload_extra b socket hp hv with
      ⟨he, -⟩ | ⟨⟨-, hr⟩, -⟩ | ⟨-, s2, hturn, -⟩
    · rw [hb.2] at he
      cases he
    · rw [hb.2] at hr
      exact absurd (hr.resolve_left hb.1) (by decide)
    refine ⟨_, _, _, s2, ?_, hreach.turn hturn⟩
    -- a receive that got all it asked for is not quiet
    have hne : (offer b (lengthOf b u' - (u'.drop sizeBytes).length) events' {}).bytes.length ≠
        lengthOf b u' - (u'.drop sizeBytes).length := by
      intro heq
      have hcomplete := offer_whole heq
      rw [hb.2] at hcomplete
      cases hcomplete
    rw [List.length_append]
    omega
  | @next o u events u' events' need events'' hh hp hv hl ih =>
    have hsize := s.inb.buffer.size_lt
    obtain ⟨s1, hreach, h1⟩ := h.comes_payload hh socket
    have hframe := (onFrames_hasHeader hframes hh).inFrame hh.stream.1 (by omega)
    have hturn := turn_payload_enough b socket (s := s1) (k := k + sizeBytes) hp hv.le
    rcases h1.packet b socket hv.le hframe.command hframe.1 with
      ⟨heq, -⟩ | ⟨-, s2, hturn', h2⟩
    · exact absurd heq hv.ne'
    · obtain ⟨packetSize, r, k', s', hr, hreach'⟩ := ih hb h2 (hframe.behind hv.le)
      exact ⟨packetSize, r, k', s', hr, ((hreach.turn hturn).turn hturn').trans hreach'⟩

/-- **The byte accounting of the multi-shot loop** is right if and only if the call does not start
with a single byte, and every payload whose bytes run out gets none or all of what it lacks. -/
theorem readForSingleSocket_tracks (socket : ℤ) {s : ReadState n} {ps : List NetworkPacket}
    (hps : ∀ q ∈ ps, Framed q) (hu : arrived s.inb.events <+: wire b.order ps) :
    Tracks b socket s ↔
      (offerOnce b n s.inb.events).bytes.length ≠ 1 ∧ Supplied b n 0 [] s.inb.events := by
  obtain ⟨s0, hstart, h0⟩ := unparsed_start b s
  have hframes : OnFrames b ([] ++ arrived s.inb.events) := ⟨ps, hps, hu⟩
  refine ⟨fun ht => ⟨fun h1 => ?_, fun need events' hl hb => ?_⟩, ?_⟩
  · obtain ⟨s1, hturn⟩ := h0.comes_split b socket h1
    have hheader := (ht.points _ s1 ⟨s0, hstart, .turn .start hturn⟩).header rfl
    exact absurd hheader (by decide)
  · obtain ⟨packetSize, r, k', s', hr, hreach⟩ := hl.comes hb h0 hframes socket
    have hpacket := (ht.points _ s' ⟨s0, hstart, hreach⟩).packet packetSize rfl
    exact absurd hr (not_lt.mpr hpacket)
  · rintro ⟨hfirst, hsupplied⟩
    exact Sound.tracks hstart (.head h0 hframes (fun _ => hfirst) hsupplied)

end Accounting

/-- A `SEND` of which the length field and the command arrive before the rest. -/
theorem readForSingleSocket_tracks_send :
    Tracks ⟨true, .little⟩ 4 (sampleState [.arrive (0 :: 6 :: Commands.send), .arrive [72, 105]]) := by
  have hps : ∀ q ∈ [(⟨4, Commands.send, [72, 105]⟩ : NetworkPacket)], Framed q := by
    rw [List.forall_mem_singleton]
    exact ⟨by decide, by decide⟩
  refine (readForSingleSocket_tracks 4 hps (by decide)).mpr ⟨by decide, fun need events' hl => ?_⟩
  cases hl with
  | here hh hp hv =>
    cases hh with
    | enough hu => exact absurd hu (by decide)
    | more hu ha h2 => exact fun hb => absurd hb.2 (by decide)
  | next hh hp hv hl =>
    cases hh with
    | enough hu => exact absurd hu (by decide)
    | more hu ha h2 => exact absurd hv (by decide)

/-- The first byte of a `SEND` arrives alone. -/
theorem readForSingleSocket_splits :
    ¬∀ (n : ℕ) (b : Build) (socket : ℤ) (s : ReadState n) (ps : List NetworkPacket), 7 ≤ n →
      (∀ q ∈ ps, Framed q ∧ (payload q).length < n) → arrived s.inb.events <+: wire b.order ps →
        Tracks b socket s := by
  intro h
  have hps : ∀ q ∈ [(⟨4, Commands.send, [72, 105]⟩ : NetworkPacket)],
      Framed q ∧ (payload q).length < 106 := by
    rw [List.forall_mem_singleton]
    exact ⟨⟨by decide, by decide⟩, by decide⟩
  set s := sampleState [.arrive [0], .arrive (6 :: Commands.send ++ [72, 105])] with hs
  have ht := h 106 ⟨true, .little⟩ 4 s _ (by decide) hps (by decide)
  obtain ⟨s0, hstart, h0⟩ := unparsed_start ⟨true, .little⟩ s
  obtain ⟨s1, hturn⟩ := h0.comes_split ⟨true, .little⟩ 4 (by decide)
  have hheader := (ht.points _ s1 ⟨s0, hstart, .turn .start hturn⟩).header rfl
  exact absurd hheader (by decide)

end PollServer
