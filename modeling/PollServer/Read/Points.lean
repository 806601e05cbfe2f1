import PollServer.Lib.Turns
import PollServer.Model.ReadSocket

/-! The multi-shot loop, cut at the points where it is about to refill, to decode a length field, to
check a size and to construct a packet, so that what holds there can be said of every iteration. -/

namespace PollServer

open Lib StopM NetworkPacket ReadM

/-- Where the loop is within an iteration. -/
inductive Point where
  | head
  | header
  | payload (packetSize : ℕ)
  | packet (packetSize : ℕ)
  deriving DecidableEq

/-- The loop is at `point`, with its `bytesToRead`, and has parsed so many bytes of the stream. -/
structure Cursor where
  point : Point
  bytesToRead : ℕ
  parsed : ℕ
  deriving DecidableEq

/-- The loop from one point to the next. -/
def Cursor.turn {n : ℕ} (b : Build) (socket : ℤ) (c : Cursor) : ReadM n (ClientPollResult ⊕ Cursor) :=
  match c.point with
  | .head => do
    match ← refill b c.bytesToRead with
    | none => return .inl (← closeSocket)
    | some bytesToRead => return .inr ⟨.header, bytesToRead, c.parsed⟩
  | .header => do
    let packetSize ← nextPacketSize b
    onBuffer (·.offsetBy b sizeBytes)
    return .inr ⟨.payload packetSize, subSize c.bytesToRead sizeBytes, c.parsed + sizeBytes⟩
  | .payload packetSize => do
    checkPacketSize b packetSize
    match ← readExtra b packetSize c.bytesToRead with
    | none => return .inl (← closeSocket)
    | some bytesToRead => return .inr ⟨.packet packetSize, bytesToRead, c.parsed⟩
  | .packet packetSize => do
    takePacket b socket packetSize
    let bytesToRead := subSize c.bytesToRead packetSize
    if 0 < bytesToRead then return .inr ⟨.head, bytesToRead, c.parsed + packetSize⟩
    else return .inl { read := true }

section Machine

variable {n : ℕ} {b : Build} {socket : ℤ} {s s' s'' : ReadState n} {e : Stop} {r r' k packetSize : ℕ}

theorem turn_head_stop (h : refill b r s = (.error e, s')) :
    Cursor.turn b socket ⟨.head, r, k⟩ s = (.error e, s') := bind_error h

theorem turn_head_fails (h : refill b r s = (.ok none, s')) :
    Cursor.turn b socket ⟨.head, r, k⟩ s =
      (.ok (.inl { terminate := true }), { s' with session := s'.session.close }) := bind_ok h

theorem turn_head (h : refill b r s = (.ok (some r'), s')) :
    Cursor.turn b socket ⟨.head, r, k⟩ s = (.ok (.inr ⟨.header, r', k⟩), s') := bind_ok h

theorem turn_header_stop (h : nextPacketSize b s = (.error e, s')) :
    Cursor.turn b socket ⟨.header, r, k⟩ s = (.error e, s') := bind_error h

theorem turn_header_past (h : nextPacketSize b s = (.ok packetSize, s'))
    (hmove : onBuffer (·.offsetBy b sizeBytes) s' = (.error e, s'')) :
    Cursor.turn b socket ⟨.header, r, k⟩ s = (.error e, s'') := (bind_ok h).trans (bind_error hmove)

theorem turn_header (h : nextPacketSize b s = (.ok packetSize, s'))
    (hmove : onBuffer (·.offsetBy b sizeBytes) s' = (.ok (), s'')) :
    Cursor.turn b socket ⟨.header, r, k⟩ s =
      (.ok (.inr ⟨.payload packetSize, subSize r sizeBytes, k + sizeBytes⟩), s'') :=
  (bind_ok h).trans (bind_ok hmove)

theorem turn_payload_refused (h : checkPacketSize b packetSize s = (.error e, s')) :
    Cursor.turn b socket ⟨.payload packetSize, r, k⟩ s = (.error e, s') := bind_error h

theorem turn_payload_stop (hcheck : checkPacketSize b packetSize s = (.ok (), s'))
    (h : readExtra b packetSize r s' = (.error e, s'')) :
    Cursor.turn b socket ⟨.payload packetSize, r, k⟩ s = (.error e, s'') :=
  (bind_ok hcheck).trans (bind_error h)

theorem turn_payload_fails (hcheck : checkPacketSize b packetSize s = (.ok (), s'))
    (h : readExtra b packetSize r s' = (.ok none, s'')) :
    Cursor.turn b socket ⟨.payload packetSize, r, k⟩ s =
      (.ok (.inl { terminate := true }), { s'' with session := s''.session.close }) :=
  (bind_ok hcheck).trans (bind_ok h)

theorem turn_payload (hcheck : checkPacketSize b packetSize s = (.ok (), s'))
    (h : readExtra b packetSize r s' = (.ok (some r'), s'')) :
    Cursor.turn b socket ⟨.payload packetSize, r, k⟩ s = (.ok (.inr ⟨.packet packetSize, r', k⟩), s'') :=
  (bind_ok hcheck).trans (bind_ok h)

theorem turn_packet_stop (h : takePacket b socket packetSize s = (.error e, s')) :
    Cursor.turn b socket ⟨.packet packetSize, r, k⟩ s = (.error e, s') := bind_error h

theorem turn_packet (h : takePacket b socket packetSize s = (.ok (), s'))
    (hr : 0 < subSize r packetSize) : Cursor.turn b socket ⟨.packet packetSize, r, k⟩ s =
      (.ok (.inr ⟨.head, subSize r packetSize, k + packetSize⟩), s') := by
  simp only [Cursor.turn]
  rw [bind_ok h, if_pos hr]
  rfl

theorem turn_packet_last (h : takePacket b socket packetSize s = (.ok (), s'))
    (hr : ¬0 < subSize r packetSize) : Cursor.turn b socket ⟨.packet packetSize, r, k⟩ s =
      (.ok (.inl { read := true }), s') := by
  simp only [Cursor.turn]
  rw [bind_ok h, if_neg hr]
  rfl

variable {loop : ℕ → ReadM n ClientPollResult} {fuel : ℕ}

/-- From the size check on, an iteration is two turns and those of the iterations after it. -/
theorem readBody_turns
    (hloop : ∀ r k s, loop r s = turns (Cursor.turn b socket) .diverges fuel ⟨.head, r, k⟩ s) :
    readBody b socket loop packetSize r s =
      turns (Cursor.turn b socket) .diverges (fuel + 2) ⟨.payload packetSize, r, k⟩ s := by
  rw [readBody]
  rcases hcheck : checkPacketSize b packetSize s with ⟨e | ⟨⟩, s1⟩
  · rw [bind_error hcheck, turns_stop (turn_payload_refused hcheck)]
  rw [bind_ok hcheck]
  rcases hextra : readExtra b packetSize r s1 with ⟨e | _ | r', s2⟩
  · rw [bind_error hextra, turns_stop (turn_payload_stop hcheck hextra)]
  · rw [bind_ok hextra, turns_done (turn_payload_fails hcheck hextra)]
    rfl
  rw [bind_ok hextra, turns_next (turn_payload hcheck hextra)]
  dsimp only
  rcases htake : takePacket b socket packetSize s2 with ⟨e | ⟨⟩, s3⟩
  · rw [bind_error htake, turns_stop (turn_packet_stop htake)]
  rw [bind_ok htake]
  by_cases hr : 0 < subSize r' packetSize
  · rw [if_pos hr, turns_next (turn_packet htake hr)]
    exact hloop _ _ _
  · rw [if_neg hr, turns_done (turn_packet_last htake hr)]
    rfl

theorem readFrame_turns
    (hloop : ∀ r k s, loop r s = turns (Cursor.turn b socket) .diverges fuel ⟨.head, r, k⟩ s) :
    readFrame b socket loop r s =
      turns (Cursor.turn b socket) .diverges (fuel + 3) ⟨.header, r, k⟩ s := by
  rw [readFrame]
  rcases hnext : nextPacketSize b s with ⟨e | packetSize, s1⟩
  · rw [bind_error hnext, turns_stop (turn_header_stop hnext)]
  rw [bind_ok hnext]
  rcases hmove : onBuffer (·.offsetBy b sizeBytes) s1 with ⟨e | ⟨⟩, s2⟩
  · rw [bind_error hmove, turns_stop (turn_header_past hnext hmove)]
  rw [bind_ok hmove, turns_next (turn_header hnext hmove)]
  exact readBody_turns hloop

/-- An iteration of the loop is four turns. -/
theorem multiShotLoop_turns (b : Build) (socket : ℤ) (fuel r k : ℕ) (s : ReadState n) :
    multiShotLoop b socket fuel r s =
      turns (Cursor.turn b socket) .diverges (4 * fuel) ⟨.head, r, k⟩ s := by
  induction fuel generalizing r k s with
  | zero => rfl
  | succ fuel ih =>
    rw [multiShotLoop, Nat.mul_succ]
    rcases hrefill : refill b r s with ⟨e | _ | r', s1⟩
    · rw [bind_error hrefill, turns_stop (turn_head_stop hrefill)]
    · rw [bind_ok hrefill, turns_done (turn_head_fails hrefill)]
      rfl
    · rw [bind_ok hrefill, turns_next (turn_head hrefill)]
      exact readFrame_turns ih

end Machine

end PollServer
