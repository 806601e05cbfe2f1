import PollServer.Read.Fragments

/-! What a successful `recvFixedBytes` with `MSG_DONTWAIT` has received: all it was asked
for, unless the stream broke off on the way. -/

namespace PollServer

open Lib

/-- The peer goes, or an errno comes that `handleError` takes for no closed socket, after
some of the bytes and before the last. -/
def BreaksOff (b : Build) (size : ℕ) (events : List RecvEvent) : Prop :=
  (offer b size events {}).bytes ≠ [] ∧ (offer b size events {}).ending = .quiet

/-- The first `size` bytes of the stream are stored from `data()` on, and nothing else. -/
structure Whole {n : ℕ} (size : ℕ) (inb : Inbound n) (r : Result) (inb' : Inbound n) : Prop where
  count : r.noOfBytes = size
  enough : size ≤ (arrived inb.events).length
  stored : inb'.buffer.arr =
    overwrite inb.buffer.arr inb.buffer.offset ((arrived inb.events).take size)

theorem arrived_leftover (bytes : List Byte) (len : ℕ) (rest : List RecvEvent) :
    bytes ++ arrived rest = bytes.take len ++ arrived (leftover bytes len rest) := by
  unfold leftover
  split_ifs with h
  · rw [List.take_of_length_le h]
  · rw [arrived, ← List.append_assoc, List.take_append_drop]

theorem arrived_offer (b : Build) (need : ℕ) (events : List RecvEvent) (v : Attempt) :
    arrived events = (offer b need events v).bytes ++ arrived (offer b need events v).rest := by
  induction events generalizing need v with
  | nil =>
    unfold offer
    split_ifs <;> rfl
  | cons event rest ih =>
    unfold offer
    split_ifs with h0
    · rfl
    · cases event with
      | arrive bytes =>
        dsimp only
        split_ifs with hb hn
        · rw [hb]
          rfl
        · rw [arrived, arrived, ← List.append_assoc, List.take_append_drop]
        · rw [Offer.cons_bytes, Offer.cons_rest, List.append_assoc, ← ih]
          rfl
      | fail errorCode =>
        dsimp only
        split
        · rfl
        · rw [Offer.cons_bytes, Offer.cons_rest]
          exact ih need _

variable {n size : ℕ} {b : Build} {inb inb' : Inbound n} {r : Result}

theorem recvFixedBytes_offer (hs : size < 2 ^ 64) (ho : inb.buffer.offset ≤ n)
    (h : recvFixedBytes b size true inb = (.ok r, inb')) :
    (offer b size inb.events {}).result 0 = .ok r ∧
      inb.buffer.offset + (offer b size inb.events {}).bytes.length ≤ n ∧
      inb'.buffer.arr =
        overwrite inb.buffer.arr inb.buffer.offset (offer b size inb.events {}).bytes := by
  by_cases hn : inb.buffer.offset + (offer b size inb.events {}).bytes.length ≤ n
  · rw [recvFixedBytes_eq b hs inb hn] at h
    obtain ⟨hr, rfl⟩ := Prod.mk.inj h
    exact ⟨hr, hn, Buffer.stored_arr _ (by simpa using hn)⟩
  · have he := recvFixedBytes_overrun b hs inb ho (by omega)
    rw [h] at he
    cases he

/-- **A receive that succeeds has got all it was asked for if and only if the stream did
not break off on the way.** -/
theorem recvFixedBytes_whole (hs : size < 2 ^ 64) (ho : inb.buffer.offset ≤ n)
    (h : recvFixedBytes b size true inb = (.ok r, inb')) :
    (r.isSuccess = true → Whole size inb r inb') ↔ ¬BreaksOff b size inb.events := by
  obtain ⟨hr, -, harr⟩ := recvFixedBytes_offer hs ho h
  have hle := offer_length_le b size inb.events {}
  have hfront := arrived_offer b size inb.events {}
  constructor
  · rintro hw ⟨hne, hq⟩
    obtain ⟨r', hr', hfail, hcount⟩ := Offer.result_accepted (o := offer b size inb.events {})
      ⟨hne, Or.inr hq⟩
    rw [hr] at hr'
    cases hr'
    have hwhole := hw (by rw [Result.isSuccess, hfail]; rfl)
    have hcomplete := offer_whole (hcount.symm.trans hwhole.count)
    rw [hq] at hcomplete
    cases hcomplete
  · intro hb hsucc
    have hfail : r.isFailure = false := by simpa [Result.isSuccess] using hsucc
    rcases Offer.accepted_or (offer b size inb.events {}) with ha | hrf | ⟨hne, he⟩
    · rw [Offer.result_aborted ha] at hr
      cases hr
    · obtain ⟨r', hr', hfail'⟩ := Offer.result_refused hrf
      rw [hr] at hr'
      cases hr'
      rw [hfail] at hfail'
      cases hfail'
    · have hcomplete : (offer b size inb.events {}).ending = .complete :=
        he.resolve_right fun hq => hb ⟨hne, hq⟩
      have hlen := offer_complete b size inb.events {} hcomplete
      obtain ⟨r', hr', -, hcount⟩ := Offer.result_accepted ⟨hne, he⟩
      rw [hr] at hr'
      cases hr'
      refine ⟨hcount.trans hlen, by rw [hfront, List.length_append]; omega, ?_⟩
      rw [harr, hfront, List.take_left' hlen]

/-- The length field of a frame, of which the second byte comes later. -/
theorem recvFixedBytes_whole_header :
    (({ noOfBytes := 2 } : Result).isSuccess = true →
        Whole 2 ⟨sampleBuffer, [.arrive [0], .fail .eagain, .arrive [4]], []⟩ { noOfBytes := 2 }
          (recvFixedBytes ⟨true, .little⟩ 2 true
            ⟨sampleBuffer, [.arrive [0], .fail .eagain, .arrive [4]], []⟩).2) ↔
      ¬BreaksOff ⟨true, .little⟩ 2 [.arrive [0], .fail .eagain, .arrive [4]] :=
  recvFixedBytes_whole (by decide) (by decide) rfl

/-- Four of eight bytes, and then the peer is gone. -/
theorem recvFixedBytes_short :
    ¬∀ (n : ℕ) (b : Build) (size : ℕ) (inb inb' : Inbound n) (r : Result), 0 < size →
      size < 2 ^ 64 → inb.buffer.offset + size ≤ n →
      recvFixedBytes b size true inb = (.ok r, inb') → r.isSuccess = true →
      Whole size inb r inb' := by
  intro h
  have hw := h 106 ⟨true, .little⟩ 8 ⟨sampleBuffer, [.arrive Commands.send], []⟩ _
    { noOfBytes := 4 } (by decide) (by decide) (by decide) rfl (by decide)
  exact absurd hw.count (by decide)

end PollServer
