import PollServer.Read.Steps

/-! The multi-shot read without its buffer. `Reads` derives what one call does from the
bytes that are received and unparsed and the events to come, as long as no receive that
the code goes on from has ended early; `multiShotLoop_reads` is that the code does the
same on every buffer. -/

namespace PollServer

open Lib StopM NetworkPacket ReadM

/-- The session once the length field at the front of `u` is decoded. -/
def Session.headed (b : Build) (u : List Byte) (ses : Session) : Session :=
  ses.count.decoded (lengthOf b u)

@[simp] theorem Session.lengths_headed (b : Build) (u : List Byte) (ses : Session) :
    (ses.headed b u).lengths = ses.lengths ++ [lengthOf b u] := rfl
@[simp] theorem Session.readList_headed (b : Build) (u : List Byte) (ses : Session) :
    (ses.headed b u).readList = ses.readList := rfl
@[simp] theorem Session.dispatched_headed (b : Build) (u : List Byte) (ses : Session) :
    (ses.headed b u).dispatched = ses.dispatched := rfl

/-- With `u` at the offset `o`, the iteration comes to a whole length field. -/
inductive HasHeader (b : Build) (n o : ℕ) (u : List Byte) (events : List RecvEvent) :
    List Byte → List RecvEvent → Prop where
  | enough (hu : sizeBytes ≤ u.length) : HasHeader b n o u events u events
  | more (hu : u.length < sizeBytes) (ha : (offerOnce b (n - (o + u.length)) events).accepted)
      (h2 : sizeBytes ≤ (u ++ (offerOnce b (n - (o + u.length)) events).bytes).length) :
      HasHeader b n o u events (u ++ (offerOnce b (n - (o + u.length)) events).bytes)
        (offerOnce b (n - (o + u.length)) events).rest

/-- A packet of `packetSize` bytes can be taken from the front of `v`. Without the asserts
a length below a command's is taken for a whole command. -/
def Takes (b : Build) (packetSize : ℕ) (v : List Byte) : Prop :=
  packetSize ≤ v.length ∧ commandSize ≤ v.length ∧ (b.asserts = true → commandSize ≤ packetSize)

inductive Reads (b : Build) (n : ℕ) (socket : ℤ) :
    ℕ → List Byte → List RecvEvent → Session →
      Except Stop ClientPollResult → List RecvEvent → Session → Prop where
  | refused {o u events ses} (hu : u.length < sizeBytes)
      (hr : (offerOnce b (n - (o + u.length)) events).refused) :
      Reads b n socket o u events ses (.ok { terminate := true })
        (offerOnce b (n - (o + u.length)) events).rest ses.close
  | tooLarge {o u events u' events' ses} (hh : HasHeader b n o u events u' events')
      (hb : b.asserts = false) (hp : n ≤ lengthOf b u') :
      Reads b n socket o u events ses (.error .invalidArgument) events' (ses.headed b u')
  | extraRefused {o u events u' events' ses} (hh : HasHeader b n o u events u' events')
      (hp : lengthOf b u' < n) (hv : (u'.drop sizeBytes).length < lengthOf b u')
      (hr : (offer b (lengthOf b u' - (u'.drop sizeBytes).length) events' {}).refused) :
      Reads b n socket o u events ses (.ok { terminate := true })
        (offer b (lengthOf b u' - (u'.drop sizeBytes).length) events' {}).rest
        (ses.headed b u').close
  | extra {o u events u' events' ses} (hh : HasHeader b n o u events u' events')
      (hp : lengthOf b u' < n) (hv : (u'.drop sizeBytes).length < lengthOf b u')
      (hc : commandSize ≤ lengthOf b u')
      (he : (offer b (lengthOf b u' - (u'.drop sizeBytes).length) events' {}).ending = .complete) :
      Reads b n socket o u events ses (.ok { read := true })
        (offer b (lengthOf b u' - (u'.drop sizeBytes).length) events' {}).rest
        ((ses.headed b u').dispatch socket (front socket (lengthOf b u') (u'.drop sizeBytes ++
          (offer b (lengthOf b u' - (u'.drop sizeBytes).length) events' {}).bytes)))
  | last {o u events u' events' ses} (hh : HasHeader b n o u events u' events')
      (hp : lengthOf b u' < n) (ht : Takes b (lengthOf b u') (u'.drop sizeBytes))
      (hl : (u'.drop sizeBytes).length = lengthOf b u') :
      Reads b n socket o u events ses (.ok { read := true }) events'
        ((ses.headed b u').dispatch socket (front socket (lengthOf b u') (u'.drop sizeBytes)))
  | next {o u events u' events' ses out events'' ses''}
      (hh : HasHeader b n o u events u' events')
      (hp : lengthOf b u' < n) (ht : Takes b (lengthOf b u') (u'.drop sizeBytes))
      (hl : lengthOf b u' < (u'.drop sizeBytes).length)
      (hr : Reads b n socket (o + sizeBytes + lengthOf b u')
        ((u'.drop sizeBytes).drop (lengthOf b u')) events'
        ((ses.headed b u').dispatch socket (front socket (lengthOf b u') (u'.drop sizeBytes)))
        out events'' ses'') :
      Reads b n socket o u events ses out events'' ses''

/-- Every length field and every payload that the call goes on from came whole. With the
asserts in, every length it takes a packet for is in range, too. -/
def Served (n : ℕ) (b : Build) (socket : ℤ) (events : List RecvEvent) (ses : Session) : Prop :=
  ∃ out events' ses', Reads b n socket 0 [] events ses out events' ses'

section Loop

variable {n : ℕ} (b : Build) (socket : ℤ)

/-- `m` ends in `out` on `s`, with the events and the session it leaves. -/
structure Ends (m : ReadM n ClientPollResult) (s : ReadState n)
    (out : Except Stop ClientPollResult) (events : List RecvEvent) (ses : Session) : Prop where
  out : (m s).1 = out
  events : (m s).2.inb.events = events
  session : (m s).2.session = ses

variable {s : ReadState n} {o : ℕ} {u : List Byte} {events : List RecvEvent}

/-- Over a whole length field, an iteration is its body on the bytes behind the field. -/
theorem readFrame_eq (loop : ℕ → ReadM n ClientPollResult) (h : Holds s o u events)
    (hu : sizeBytes ≤ u.length) :
    ∃ s', readFrame b socket loop u.length s =
        readBody b socket loop (lengthOf b u) (u.drop sizeBytes).length s' ∧
      Holds s' (o + sizeBytes) (u.drop sizeBytes) events ∧ Follows s s' (s.session.headed b u) := by
  have hsize := s.inb.buffer.size_lt
  have hn := h.fits
  have h1 := nextPacketSize_eq b h hu
  obtain ⟨s', hs', hh, hf⟩ := offsetBy_holds b
    (s := { s with session := s.session.count.decoded (lengthOf b u) })
    ⟨h.offset, h.fits, h.bytes, h.events⟩ hu
  refine ⟨s', ?_, hh, hf.session, hf.inBounds⟩
  rw [readFrame, bind_ok h1, bind_ok hs', subSize_of_le hu (by omega), List.length_drop]

theorem refill_headed (h : Holds s o u events) {u' : List Byte} {events' : List RecvEvent}
    (hh : HasHeader b n o u events u' events') :
    sizeBytes ≤ u'.length ∧ ∃ s', refill b u.length s = (.ok (some u'.length), s') ∧
      Holds s' o u' events' ∧ Follows s s' s.session := by
  cases hh with
  | enough hu => exact ⟨hu, s, refill_enough b hu, h, Follows.refl s⟩
  | more hu ha h2 =>
    refine ⟨h2, ?_⟩
    rcases refill_cases b h hu with ⟨h', -⟩ | ⟨h', -⟩ | ⟨-, s', hs', hh', hf⟩
    · exact absurd h' (Offer.not_aborted ha)
    · exact absurd h' (Offer.not_refused ha)
    · exact ⟨s', by rw [hs', List.length_append], hh', hf⟩

theorem multiShotLoop_refilled {s' : ReadState n} {r r' : ℕ}
    (h : refill b r s = (.ok (some r'), s')) (fuel : ℕ) :
    multiShotLoop b socket (fuel + 1) r s = readFrame b socket (multiShotLoop b socket fuel) r' s' := by
  rw [multiShotLoop, bind_ok h]

theorem multiShotLoop_headed (h : Holds s o u events) {u' : List Byte} {events' : List RecvEvent}
    (hh : HasHeader b n o u events u' events') (fuel : ℕ) :
    ∃ s', multiShotLoop b socket (fuel + 1) u.length s =
        readBody b socket (multiShotLoop b socket fuel) (lengthOf b u')
          (u'.drop sizeBytes).length s' ∧
      Holds s' (o + sizeBytes) (u'.drop sizeBytes) events' ∧
      Follows s s' (s.session.headed b u') := by
  obtain ⟨hu', s1, hs1, hh1, hf1⟩ := refill_headed b h hh
  obtain ⟨s2, hs2, hh2, hf2⟩ := readFrame_eq b socket (multiShotLoop b socket fuel) hh1 hu'
  rw [hf1.session] at hf2
  exact ⟨s2, (multiShotLoop_refilled b socket hs1 fuel).trans hs2, hh2, hf1.trans hf2⟩

theorem readBody_tooLarge (loop : ℕ → ReadM n ClientPollResult) {packetSize : ℕ}
    (hp : n ≤ packetSize) (k : ℕ) :
    readBody b socket loop packetSize k s =
      (.error (if b.asserts then .assertion else .invalidArgument), s) := by
  rw [readBody, bind_error (checkPacketSize_error b hp)]

theorem readBody_takes (loop : ℕ → ReadM n ClientPollResult) {packetSize : ℕ}
    (h : Holds s o u events) (hp : packetSize < n) (ht : Takes b packetSize u)
    (hv : ∃ v : PacketSize, v.toSizeT = packetSize) :
    ∃ s', readBody b socket loop packetSize u.length s =
        (if 0 < u.length - packetSize then loop (u.length - packetSize)
          else return { read := true } : ReadM n ClientPollResult) s' ∧
      Holds s' (o + packetSize) (u.drop packetSize) events ∧
      Follows s s' (s.session.dispatch socket (front socket packetSize u)) := by
  have hsize := s.inb.buffer.size_lt
  have hn := h.fits
  obtain ⟨s', hs', hh, hf⟩ := takePacket_holds b socket h ht.1 ht.2.1 ht.2.2 hv
  refine ⟨s', ?_, hh, hf⟩
  rw [readBody, bind_ok (checkPacketSize_ok b hp), bind_ok (readExtra_enough b ht.1)]
  dsimp only
  rw [bind_ok hs', subSize_of_le ht.1 (by omega)]

theorem readBody_extra (loop : ℕ → ReadM n ClientPollResult) {packetSize : ℕ}
    (h : Holds s o u events) (hp : packetSize < n) (hu : u.length < packetSize)
    (hc : commandSize ≤ packetSize) (hv : ∃ v : PacketSize, v.toSizeT = packetSize)
    (he : (offer b (packetSize - u.length) events {}).ending = .complete) :
    Ends (readBody b socket loop packetSize u.length) s (.ok { read := true })
      (offer b (packetSize - u.length) events {}).rest
      (s.session.dispatch socket
        (front socket packetSize (u ++ (offer b (packetSize - u.length) events {}).bytes))) := by
  have hlen := offer_complete b _ events {} he
  have hsize := s.inb.buffer.size_lt
  rcases readExtra_cases b h hu hp with ⟨h', -⟩ | ⟨h', -⟩ | ⟨-, s1, hs1, hh1, hf1⟩
  · simp [he] at h'
  · rcases h'.2 with hb | hc'
    · simp only [hb, List.length_nil] at hlen
      omega
    · simp [he] at hc'
  · have hl : (u ++ (offer b (packetSize - u.length) events {}).bytes).length = packetSize := by
      rw [List.length_append, hlen]
      omega
    obtain ⟨s2, hs2, hh2, hf2⟩ := takePacket_holds b socket hh1 (by rw [hl]) (by rw [hl]; exact hc)
      (fun _ => hc) hv
    have hrun : readBody b socket loop packetSize u.length s = (.ok { read := true }, s2) := by
      rw [readBody, bind_ok (checkPacketSize_ok b hp), bind_ok hs1]
      dsimp only
      rw [bind_ok hs2, ← List.length_append, hl, subSize_of_le le_rfl (by omega), Nat.sub_self]
      rfl
    rw [hf1.session] at hf2
    exact ⟨by rw [hrun], by rw [hrun]; exact hh2.events, by rw [hrun]; exact hf2.session⟩

theorem readBody_extraRefused (loop : ℕ → ReadM n ClientPollResult) {packetSize : ℕ}
    (h : Holds s o u events) (hp : packetSize < n) (hu : u.length < packetSize)
    (hr : (offer b (packetSize - u.length) events {}).refused) :
    Ends (readBody b socket loop packetSize u.length) s (.ok { terminate := true })
      (offer b (packetSize - u.length) events {}).rest s.session.close := by
  rcases readExtra_cases b h hu hp with ⟨h', -⟩ | ⟨-, s1, hs1, he1, hf1⟩ | ⟨h', -⟩
  · exact absurd h' hr.1
  · have hrun : readBody b socket loop packetSize u.length s =
        (.ok { terminate := true }, { s1 with session := s1.session.close }) := by
      rw [readBody, bind_ok (checkPacketSize_ok b hp), bind_ok hs1]
      rfl
    exact ⟨by rw [hrun], by rw [hrun]; exact he1, by rw [hrun, ← hf1.session]⟩
  · exact absurd hr (Offer.not_refused h')

theorem Ends.of_eq {m m' : ReadM n ClientPollResult} {s s' : ReadState n}
    {out : Except Stop ClientPollResult} {events : List RecvEvent} {ses : Session}
    (h : Ends m' s' out events ses) (he : m s = m' s') : Ends m s out events ses :=
  ⟨by rw [he]; exact h.out, by rw [he]; exact h.events, by rw [he]; exact h.session⟩

/-- **The code follows the derivation**, whatever the buffer held before. -/
theorem multiShotLoop_reads {ses ses' : Session} {out : Except Stop ClientPollResult}
    {events' : List RecvEvent} (hr : Reads b n socket o u events ses out events' ses') :
    ∀ (fuel : ℕ) (s : ReadState n), Holds s o u events → s.session = ses → n - o < fuel →
      Ends (multiShotLoop b socket fuel u.length) s out events' ses' := by
  induction hr with
  | @refused o u events ses hu hr =>
    rintro (_ | fuel) s h rfl hfuel
    · omega
    rcases refill_cases b h hu with ⟨h', -⟩ | ⟨-, s1, hs1, he1, hf1⟩ | ⟨h', -⟩
    · exact absurd h' hr.1
    · have hrun : multiShotLoop b socket (fuel + 1) u.length s =
          (.ok { terminate := true }, { s1 with session := s1.session.close }) := by
        rw [multiShotLoop, bind_ok hs1]
        rfl
      exact ⟨by rw [hrun], by rw [hrun]; exact he1, by rw [hrun, ← hf1.session]⟩
    · exact absurd hr (Offer.not_refused h')
  | tooLarge hh hb hp =>
    rintro (_ | fuel) s h rfl hfuel
    · omega
    obtain ⟨s1, hs1, hh1, hf1⟩ := multiShotLoop_headed b socket h hh fuel
    refine Ends.of_eq ?_ hs1
    rw [← hf1.session]
    refine ⟨?_, ?_, ?_⟩ <;> rw [readBody_tooLarge b socket _ hp, hb]
    · rfl
    · exact hh1.events
  | extraRefused hh hp hv hr =>
    rintro (_ | fuel) s h rfl hfuel
    · omega
    obtain ⟨s1, hs1, hh1, hf1⟩ := multiShotLoop_headed b socket h hh fuel
    rw [← hf1.session]
    exact (readBody_extraRefused b socket _ hh1 hp hv hr).of_eq hs1
  | extra hh hp hv hc he =>
    rintro (_ | fuel) s h rfl hfuel
    · omega
    obtain ⟨s1, hs1, hh1, hf1⟩ := multiShotLoop_headed b socket h hh fuel
    rw [← hf1.session]
    exact (readBody_extra b socket _ hh1 hp hv hc ⟨_, rfl⟩ he).of_eq hs1
  | last hh hp ht hl =>
    rintro (_ | fuel) s h rfl hfuel
    · omega
    obtain ⟨s1, hs1, hh1, hf1⟩ := multiShotLoop_headed b socket h hh fuel
    obtain ⟨s2, hs2, hh2, hf2⟩ := readBody_takes b socket (multiShotLoop b socket fuel) hh1 hp ht ⟨_, rfl⟩
    refine Ends.of_eq ?_ (hs1.trans hs2)
    rw [if_neg (by omega), ← hf1.session]
    exact ⟨rfl, hh2.events, hf2.session⟩
  | next hh hp ht hl _ ih =>
    rintro (_ | fuel) s h rfl hfuel
    · omega
    obtain ⟨s1, hs1, hh1, hf1⟩ := multiShotLoop_headed b socket h hh fuel
    obtain ⟨s2, hs2, hh2, hf2⟩ := readBody_takes b socket (multiShotLoop b socket fuel) hh1 hp ht ⟨_, rfl⟩
    refine Ends.of_eq ?_ (hs1.trans hs2)
    have hle := hh2.le
    rw [if_pos (by omega), ← List.length_drop]
    rw [hf1.session] at hf2
    exact ih fuel s2 hh2 hf2.session (by simp only [sizeBytes] at *; omega)

theorem readMultiShot_start (s : ReadState n) :
    ∃ s0 : ReadState n, Holds s0 0 [] s.inb.events ∧ s0.session = s.session ∧
      readMultiShot b socket s = multiShotLoop b socket (2 * n + 2) ([] : List Byte).length s0 := by
  have hset := onBuffer_start b s
  exact ⟨{ s with inb := { s.inb with buffer := s.inb.buffer.withOffset 0 } },
    ⟨rfl, Nat.zero_le n, window_zero _ _, rfl⟩, rfl, bind_ok hset⟩

theorem readMultiShot_reads {s : ReadState n} {out : Except Stop ClientPollResult}
    {events' : List RecvEvent} {ses' : Session}
    (h : Reads b n socket 0 [] s.inb.events s.session out events' ses') :
    Ends (readMultiShot b socket) s out events' ses' := by
  obtain ⟨s0, hh0, hq0, hrun⟩ := readMultiShot_start b socket s
  rw [← hq0] at h
  exact (multiShotLoop_reads b socket h _ s0 hh0 rfl (by omega)).of_eq hrun

end Loop

end PollServer
