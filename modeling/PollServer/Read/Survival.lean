import PollServer.Read.Overrun
import PollServer.Read.SingleShot

/-! What a peer can do to the thread that reads from it. A call survives when it returns,
and asks for termination if it decoded a length that no packet can have. -/

namespace PollServer

open Lib StopM NetworkPacket ReadM

/-- Below a command or not below the capacity. A negative length is a `size_t` above
every capacity. -/
def outOfRange (n packetSize : ℕ) : Prop := packetSize < commandSize ∨ n ≤ packetSize

section Survival

variable {n : ℕ} (b : Build) (order : ByteOrder) (socket : ℤ)

def Survives (m : ReadM n ClientPollResult) (s : ReadState n) : Prop :=
  ∃ r more, (m s).1 = .ok r ∧ (m s).2.session.lengths = s.session.lengths ++ more ∧
    ((∃ k ∈ more, outOfRange n k) → r.terminate = true)

/-- No errno trips an assert, the array has room for the length field, and a payload of
which anything came has a length in range. -/
def SingleShotInRange (a : List Byte) (events : List RecvEvent) : Prop :=
  let header := offer b sizeBytes events {}
  let packetSize := lengthOf b (overwrite a 0 header.bytes)
  let payload := offer b packetSize header.rest {}
  header.ending ≠ .aborted ∧ header.bytes.length ≤ n ∧
    (header.accepted → sizeBytes ≤ n ∧ payload.ending ≠ .aborted ∧ payload.bytes.length ≤ n ∧
      (payload.accepted → ¬outOfRange n packetSize))

variable {b} {s : ReadState n}

theorem Survives.of_ends {m : ReadM n ClientPollResult} {r : ClientPollResult}
    {events : List RecvEvent} {ses : Session} {more : List ℕ} (h : Ends m s (.ok r) events ses)
    (hl : ses.lengths = s.session.lengths ++ more)
    (hr : (∃ k ∈ more, outOfRange n k) → r.terminate = true) : Survives m s :=
  ⟨r, more, h.out, by rw [h.session, hl], hr⟩

theorem not_survives {m : ReadM n ClientPollResult} {e : Stop} (h : (m s).1 = .error e) :
    ¬Survives m s := by
  rintro ⟨r, more, hr, -⟩
  rw [h] at hr
  cases hr

variable (b)

theorem payloadRead_survives {a : List Byte} {events : List RecvEvent} (h : HoldsAll s a events)
    {packetSize : ℕ} (hv : ∃ v : PacketSize, v.toSizeT = packetSize) :
    (∃ r, (payloadRead b socket packetSize s).1 = .ok r ∧
        (outOfRange n packetSize → r.terminate = true)) ↔
      (offer b packetSize events {}).ending ≠ .aborted ∧
        (offer b packetSize events {}).bytes.length ≤ n ∧
        ((offer b packetSize events {}).accepted → ¬outOfRange n packetSize) := by
  have hs : packetSize < 2 ^ 64 := by
    obtain ⟨v, rfl⟩ := hv
    exact BitVec.isLt _
  by_cases hn : n < (offer b packetSize events {}).bytes.length
  · have ho := (payloadRead_overrun b socket h hs hn).1
    simp only [ho]
    constructor
    · rintro ⟨r, hr, -⟩
      cases hr
    · rintro ⟨-, hn', -⟩
      omega
  have hn' : (offer b packetSize events {}).bytes.length ≤ n := not_lt.mp hn
  rcases (offer b packetSize events {}).accepted_or with ha | hr | ha
  · have he := payloadRead_aborted b socket h hs hn' ha
    simp only [he.out]
    constructor
    · rintro ⟨r, hr, -⟩
      cases hr
    · rintro ⟨ha', -⟩
      exact absurd ha ha'
  · have he := payloadRead_refused b socket h hs hn' hr
    refine ⟨fun _ => ⟨hr.1, hn', fun ha => absurd hr (Offer.not_refused ha)⟩, fun _ => ?_⟩
    exact ⟨_, he.out, fun _ => rfl⟩
  · have hna := Offer.not_aborted ha
    by_cases hp : n ≤ packetSize
    · have he := payloadRead_tooLarge b socket h hs hn' ha hp
      simp only [he.out]
      constructor
      · rintro ⟨r, hr, -⟩
        cases hr
      · rintro ⟨-, -, hin⟩
        exact absurd (Or.inr hp) (hin ha)
    by_cases hc : commandSize ≤ packetSize
    · have he := payloadRead_built b socket h hv ha (by omega) (by omega) (fun _ => hc)
      refine ⟨fun _ => ⟨hna, hn', fun _ ho => ?_⟩, fun _ => ⟨_, he.out, fun ho => ?_⟩⟩
      · rcases ho with ho | ho <;> omega
      · rcases ho with ho | ho <;> omega
    -- a length below a command's is not in range, and never asks for termination
    constructor
    · rintro ⟨r, hr, ht⟩
      by_cases hb : n < commandSize ∨ (b.asserts = true ∧ packetSize < commandSize)
      · rw [(payloadRead_unbuilt b socket h hv ha (by omega) hb).out] at hr
        cases hr
      · rw [not_or] at hb
        have he := payloadRead_built b socket h hv ha (by omega) (by omega)
          (fun hb' => absurd ⟨hb', by omega⟩ hb.2)
        rw [he.out] at hr
        cases hr
        exact absurd (ht (Or.inl (by omega))) (by simp)
    · rintro ⟨-, -, hin⟩
      exact absurd (Or.inl (by omega)) (hin ha)

theorem readSingleShot_survives (s : ReadState n) :
    Survives (readSingleShot b socket) s ↔
      SingleShotInRange (n := n) b s.inb.buffer.arr s.inb.events := by
  unfold SingleShotInRange
  dsimp only
  by_cases hn : n < (offer b sizeBytes s.inb.events {}).bytes.length
  · apply iff_of_false (not_survives (readSingleShot_overrun b socket hn).1)
    rintro ⟨-, hn', -⟩
    omega
  have hn' := not_lt.mp hn
  rcases (offer b sizeBytes s.inb.events {}).accepted_or with ha | hr | ha
  · exact iff_of_false (not_survives (readSingleShot_aborted b socket hn' ha).out) (fun h => h.1 ha)
  · refine iff_of_true (Survives.of_ends (readSingleShot_refused b socket hn' hr)
      (List.append_nil _).symm (by simp)) ⟨hr.1, hn', fun ha => absurd hr (Offer.not_refused ha)⟩
  · by_cases ht : n < sizeBytes
    · apply iff_of_false (not_survives (readSingleShot_tiny b socket hn' ha ht).out)
      rintro ⟨-, -, h⟩
      have := (h ha).1
      omega
    obtain ⟨s1, hrun, hh1, hq, -⟩ := readSingleShot_headed b socket hn' ha (not_lt.mp ht)
    generalize overwrite s.inb.buffer.arr 0 (offer b sizeBytes s.inb.events {}).bytes = a at *
    have hp := payloadRead_survives b socket hh1 (lengthOf_val b a)
    have hl := (payloadRead_keeps b socket (lengthOf b a) s1).lengths
    dsimp only at hl
    rw [hq] at hl
    have hna := Offer.not_aborted ha
    constructor
    · rintro ⟨r, more, hr, hmore, ht'⟩
      rw [hrun] at hr hmore
      rw [hl] at hmore
      obtain rfl := List.append_cancel_left hmore
      obtain ⟨h1, h2, h3⟩ := hp.mp ⟨r, hr, fun ho => ht' ⟨_, List.mem_singleton_self _, ho⟩⟩
      exact ⟨hna, hn', fun _ => ⟨not_lt.mp ht, h1, h2, h3⟩⟩
    · rintro ⟨-, -, h⟩
      obtain ⟨-, h1, h2, h3⟩ := h ha
      obtain ⟨r, hr, ht'⟩ := hp.mpr ⟨h1, h2, h3⟩
      refine ⟨r, [_], by rw [hrun, hr], by rw [hrun]; exact hl, ?_⟩
      rintro ⟨k, hk, ho⟩
      rw [List.mem_singleton.mp hk] at ho
      exact ht' ho

/-- What `Reads` derives with the asserts in is a result, and out of range is only the
length it was refused the payload of. -/
theorem Reads.lengths {o : ℕ} {u : List Byte} {events events' : List RecvEvent} {ses ses' : Session}
    {out : Except Stop ClientPollResult} (hb : b.asserts = true)
    (h : Reads b n socket o u events ses out events' ses') :
    ∃ r more, out = .ok r ∧ ses'.lengths = ses.lengths ++ more ∧
      ((∃ k ∈ more, outOfRange n k) → r.terminate = true) := by
  induction h with
  | refused => exact ⟨_, [], rfl, by simp, by simp⟩
  | tooLarge _ hb' => simp [hb] at hb'
  | extraRefused => exact ⟨_, [_], rfl, rfl, fun _ => rfl⟩
  | extra _ hp _ hc =>
    refine ⟨_, [_], rfl, by rw [Session.lengths_dispatch]; rfl, ?_⟩
    rintro ⟨k, hk, ho⟩
    rw [List.mem_singleton.mp hk] at ho
    rcases ho with ho | ho <;> omega
  | last _ hp ht =>
    refine ⟨_, [_], rfl, by rw [Session.lengths_dispatch]; rfl, ?_⟩
    rintro ⟨k, hk, ho⟩
    have hc := ht.2.2 hb
    rw [List.mem_singleton.mp hk] at ho
    rcases ho with ho | ho <;> omega
  | @next o u events u' events' ses out events'' ses'' _ hp ht _ _ ih =>
    obtain ⟨r, more, hr, hl, ho⟩ := ih
    refine ⟨r, lengthOf b u' :: more, hr, ?_, ?_⟩
    · rw [hl, Session.lengths_dispatch, Session.lengths_headed, List.append_assoc, List.singleton_append]
    · rintro ⟨k, hk, hk'⟩
      rcases List.mem_cons.mp hk with rfl | hk
      · have hc := ht.2.2 hb
        rcases hk' with hk' | hk' <;> omega
      · exact ho ⟨k, hk, hk'⟩

theorem readMultiShot_survives (hb : b.asserts = true) (s : ReadState n) :
    Survives (readMultiShot b socket) s ↔ Served n b socket s.inb.events s.session := by
  constructor
  · rintro ⟨r, -, hr, -⟩
    obtain ⟨s0, hh0, hq0, hrun⟩ := readMultiShot_start b socket s
    rw [hrun] at hr
    obtain ⟨events', ses', h⟩ := multiShotLoop_ok socket hb _ s0 0 [] _ hh0 hr
    rw [hq0] at h
    exact ⟨_, events', ses', h⟩
  · rintro ⟨out, events', ses', h⟩
    obtain ⟨r, more, rfl, hl, ho⟩ := h.lengths b socket hb
    exact .of_ends (readMultiShot_reads b socket h) hl ho

/-- **What a peer can bring down.** The single-shot read returns, and drops the client of
a length out of range, exactly when the payload of such a length is refused; the
multi-shot read exactly when the call is served. -/
theorem readForSingleSocket_survives (s : ReadState n) :
    (Survives (readSingleShot ⟨true, order⟩ socket) s ↔
      SingleShotInRange (n := n) ⟨true, order⟩ s.inb.buffer.arr s.inb.events) ∧
    (Survives (readMultiShot ⟨true, order⟩ socket) s ↔
      Served n ⟨true, order⟩ socket s.inb.events s.session) :=
  ⟨readSingleShot_survives _ socket s, readMultiShot_survives _ socket rfl s⟩

end Survival

/-- Two bytes that announce two bytes abort the server in either build. -/
theorem readForSingleSocket_aborts :
    ¬∀ (n : ℕ) (order : ByteOrder) (socket : ℤ) (s : ReadState n),
      Survives (readSingleShot ⟨true, order⟩ socket) s ∧
        Survives (readMultiShot ⟨true, order⟩ socket) s := by
  intro h
  exact not_survives (e := .assertion) rfl
    (h 106 .little 5 (sampleState [.arrive [0, 2, 65, 66]])).1

end PollServer
