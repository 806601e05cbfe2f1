import PollServer.Read.Attempts

/-! How often a send is retried. `sendRaw` counts its failures as `recvFixedBytes` does, and every
`send` that takes a byte brings it nearer to the length of the message. -/

namespace PollServer

open Lib

/-- The outcomes of a `send` of `len` bytes. -/
def sendOutcomes (len : ℕ) : Outcomes SendEvent where
  errno?
    | .fail errorCode => some errorCode
    | .sent _ => none
  bytes
    | .sent count => min count len
    | .fail _ => 0

/-- What `sendRaw` returns on `events`, and the calls of `send` it has made. -/
def sendReturned (b : Build) (msg : List Byte) (events : List SendEvent) : Except Stop Result × ℕ :=
  let (result, out) := sendLoop b msg events 0 {} ⟨[], []⟩
  (result, out.requests.length)

/-- What the loop of `sendRaw` carries from turn to turn. -/
structure Sending where
  total : ℕ
  attempt : Attempt
  out : Outbound

def Sending.loop (b : Build) (msg : List Byte) (s : Sending) (events : List SendEvent) :
    Except Stop Result × ℕ :=
  let (result, out) := sendLoop b msg events s.total s.attempt s.out
  (result, out.requests.length)

/-- Every turn sends a byte or counts a failure. -/
def Sending.left (len : ℕ) (s : Sending) : ℕ := len - s.total + (24 - s.attempt.fifths)

/-- Between two turns, after `front`. -/
structure Sending.Going (len : ℕ) (front : List SendEvent) (s : Sending) : Prop where
  total : s.total = (sendOutcomes len).gained front
  tallies : Tallies s.attempt ((sendOutcomes len).errnos front)
  goesOn : ∀ e ∈ front, (sendOutcomes len).goesOn e = true
  calls : s.out.requests.length = front.length

section Sending

variable {b : Build} {msg : List Byte} {front : List SendEvent} {s : Sending}

/-- A turn of the loop. No object is longer than `PTRDIFF_MAX`, and so `total` does not wrap. -/
theorem Sending.Going.turn (hlen : msg.length < 2 ^ 63) (h : s.Going msg.length front)
    (hlt : s.total < msg.length) {event : SendEvent} (hcount : ∀ count, event = .sent count → 0 < count) :
    Turn (Sending.loop b msg) (Sending.left msg.length) (Going msg.length)
      (Over (sendOutcomes msg.length) msg.length True 0) front s event := by
  obtain ⟨total, v, out⟩ := s
  obtain ⟨htotal, htallies, hgoes, hcalls⟩ := h
  dsimp only at hlt htotal htallies hcalls
  have hmade : (out.requests ++ [(⟨0, msg.length⟩ : Request)]).length = (front ++ [event]).length := by
    rw [List.length_append, List.length_append, hcalls]
    rfl
  have hgained := gained_concat (sendOutcomes msg.length) front event
  rw [← htotal] at hgained
  cases event with
  | sent count =>
    have hpos := hcount count rfl
    have hadd : addSize total (min count msg.length) = total + min count msg.length :=
      addSize_of_lt (by omega)
    have hgoesOn : (sendOutcomes msg.length).goesOn (.sent count) = true :=
      decide_eq_true (show 0 < min count msg.length by omega)
    refine .goes ⟨total + min count msg.length, v,
      ⟨out.wire ++ msg.take count, out.requests ++ [⟨0, msg.length⟩]⟩⟩
      ⟨hgained.symm, ?_, goesOn_concat hgoes hgoesOn, hmade⟩ ?_ fun more => ?_
    · rw [errnos_concat_none rfl]
      exact htallies
    · simp only [Sending.left]
      omega
    · simp only [Sending.loop, sendLoop, if_pos hlt, hadd]
  | fail errorCode =>
    refine turn_failed b total htallies hgoes rfl (hmade.trans (Nat.zero_add _).symm)
      (fun stop hcall more => ?_) (fun v' hcall more => ?_) (fun v' hcall hmajor more => ?_)
      fun v' hcall hmajor ht hall hless hle => ?_
    · simp only [Sending.loop, sendLoop, if_pos hlt, hcall]
    · simp only [Sending.loop, sendLoop, if_pos hlt, hcall]
    · simp only [Sending.loop, sendLoop, if_pos hlt, hcall, if_pos hmajor]
    · refine ⟨⟨total, v', ⟨out.wire, out.requests ++ [⟨0, msg.length⟩]⟩⟩,
        ⟨hgained.symm, ht, hall, hmade⟩, ?_, fun more => ?_⟩
      · simp only [Sending.left]
        omega
      · simp only [Sending.loop, sendLoop, if_pos hlt, hcall, if_neg (not_le.mpr hmajor)]

theorem Sending.Going.done (h : s.Going msg.length front) (hle : msg.length ≤ s.total) :
    ∃ r, Over (sendOutcomes msg.length) msg.length True 0 front r ∧ ∀ more, s.loop b msg more = r := by
  refine ⟨(.ok { s.attempt.result with noOfBytes := s.total }, s.out.requests.length),
    ⟨h.calls.trans (Nat.zero_add _).symm, .whole _ (hle.trans h.total.le) h.tallies.few_before rfl⟩,
    fun more => ?_⟩
  cases more with
  | nil => simp only [Sending.loop, sendLoop, if_neg (not_lt.mpr hle)]
  | cons event rest => simp only [Sending.loop, sendLoop, if_neg (not_lt.mpr hle)]

theorem sendRaw_stops (b : Build) (hlen : msg.length < 2 ^ 63) {outcomes : ℕ → SendEvent}
    (hcount : ∀ i count, outcomes i = .sent count → 0 < count) :
    ∃ calls ≤ msg.length + 24, ∃ r, EndsOn (sendReturned b msg) (firsts outcomes calls) (r, calls) ∧
      Stops (sendOutcomes msg.length) msg.length True outcomes calls r := by
  have hstart : Sending.Going msg.length [] ⟨0, {}, ⟨[], []⟩⟩ :=
    ⟨rfl, tallies_start, fun _ he => absurd he List.not_mem_nil, rfl⟩
  obtain ⟨calls, hcalls, r, hends, hstops⟩ := stops_of_measure (Sending.loop b msg)
    (Sending.left msg.length) (Sending.Going msg.length)
    (fun front s h => (le_or_gt msg.length s.total).imp h.done fun hlt =>
      ⟨⟨h.total.symm.trans_lt hlt, h.tallies.few_before, h.goesOn⟩,
        Nat.add_pos_left (Nat.sub_pos_of_lt hlt) _, fun i => h.turn hlen hlt (hcount i)⟩) hstart
  refine ⟨calls, hcalls, r, ?_, hstops⟩
  rwa [Nat.zero_add] at hends

end Sending

/-- **The retry loops terminate.** A receive of `size` bytes that does not wait makes at most
`size + 24` calls of `recv`, and a send of `msg` at most 24 more than it has bytes; and each of them
calls again for as long as it has reason to, and no longer. -/
theorem retries_stop (b : Build) :
    (∀ (n size : ℕ) (inb : Inbound n) (outcomes : ℕ → RecvEvent), size < 2 ^ 64 →
      ∃ calls ≤ size + 24, ∃ r, EndsOn (returned (recvFixedBytes b size true) inb)
        (firsts outcomes calls) (r, inb.requests.length + calls) ∧
          Stops recvOutcomes size (inb.buffer.offset + size ≤ n) outcomes calls r) ∧
    (∀ (msg : List Byte) (outcomes : ℕ → SendEvent), msg.length < 2 ^ 63 →
      (∀ i count, outcomes i = .sent count → 0 < count) →
      ∃ calls ≤ msg.length + 24, ∃ r, EndsOn (sendReturned b msg) (firsts outcomes calls) (r, calls) ∧
        Stops (sendOutcomes msg.length) msg.length True outcomes calls r) :=
  ⟨fun _ _ inb outcomes hs => recvFixedBytes_stops b hs inb outcomes,
    fun _ _ hlen hcount => sendRaw_stops b hlen hcount⟩

/-- `recv` is interrupted for ever: the fifth call is the last. `send` would block for ever: the
twenty-fifth is. -/
theorem retries_stop_forever :
    (∃ result, EndsOn (returned (recvFixedBytes ⟨true, .little⟩ 3 true)
      (⟨.filled 0 (by decide) (by decide), [], []⟩ : Inbound 106))
        (firsts (fun _ => .fail .eintr) 5) (.ok result, 0 + 5) ∧ result.socketClosed = true) ∧
    (∃ result, EndsOn (sendReturned ⟨true, .little⟩ [72, 105])
      (firsts (fun _ => .fail .eagain) 25) (.ok result, 25) ∧ result.socketClosed = true) := by
  refine ⟨?_, ?_⟩
  · obtain ⟨calls, -, r, hends, hstops⟩ := (retries_stop ⟨true, .little⟩).1 106 3
      ⟨.filled 0 (by decide) (by decide), [], []⟩ (fun _ => .fail .eintr) (by decide)
    obtain ⟨rfl, result, rfl, hclosed⟩ := hstops.of_retried rfl rfl rfl (by decide) (by decide)
    exact ⟨result, hends, hclosed⟩
  · obtain ⟨calls, -, r, hends, hstops⟩ := (retries_stop ⟨true, .little⟩).2 [72, 105]
      (fun _ => .fail .eagain) (by decide) nofun
    obtain ⟨rfl, result, rfl, hclosed⟩ := hstops.of_retried rfl rfl rfl (by decide) trivial
    exact ⟨result, hends, hclosed⟩

end PollServer
