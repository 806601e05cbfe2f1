import PollServer.Model.Packet

/-! A frame between two hosts. `Marshall` swaps the length on a little-endian host and not
on a big-endian one, and then takes its bytes by shifts, which no host orders differently:
so the order on the wire is that of the host, and hosts of different order read different
lengths. -/

namespace PollServer

open Lib NetworkPacket

variable {m n : ℕ} {b : Build} {order : ByteOrder} {socket : ℤ} {p : NetworkPacket}
  {header : Buffer m} {payload : Buffer n}

/-- The length from one buffer, and then the packet from another or from the same one with
its offset moved. -/
def decode (b : Build) (socket : ℤ) (header : Buffer m) (payload : Buffer n) :
    Except Stop NetworkPacket := do
  let packetSize ← extractPacketSizeFromBuffer b header
  ofBuffer b socket payload packetSize

/-- The buffers hold the two parts of the frame of `p`, as a sender of the given order
serialises it. -/
structure HoldsFrame (order : ByteOrder) (p : NetworkPacket) (header : Buffer m)
    (payload : Buffer n) : Prop where
  header : window header.arr header.offset sizeBytes = (p.marshall order).take sizeBytes
  payload : window payload.arr payload.offset (p.command.length + p.data.length) =
    (p.marshall order).drop sizeBytes

theorem marshall_take (order : ByteOrder) (p : NetworkPacket) :
    (p.marshall order).take sizeBytes = sizeBuffer (hostToNetwork order p.size) := by
  rw [marshall, List.append_assoc, List.take_left' (length_sizeBuffer _)]

theorem marshall_drop (order : ByteOrder) (p : NetworkPacket) :
    (p.marshall order).drop sizeBytes = p.command ++ p.data := by
  rw [marshall, List.append_assoc, List.drop_left' (length_sizeBuffer _)]

theorem Buffer.window_le (buf : Buffer n) {u : List Byte} {k : ℕ} (hk : 0 < k)
    (hu : u.length = k) (h : window buf.arr buf.offset k = u) : buf.offset + k ≤ n := by
  have hl := congrArg List.length h
  rw [window, List.length_take, List.length_drop, buf.length_arr, hu] at hl
  omega

/-- The length that the receiver takes out of the frame. -/
theorem extract_frame
    (hh : window header.arr header.offset sizeBytes = (p.marshall order).take sizeBytes) :
    extractPacketSizeFromBuffer b header =
      .ok (networkToHost b.order (hostToNetwork order p.size)) := by
  rw [marshall_take] at hh
  have hle := header.window_le (by decide) (length_sizeBuffer _) hh
  have hread : header.read 0 sizeBytes = .ok (sizeBuffer (hostToNetwork order p.size)) := by
    rw [Buffer.read, if_pos (by omega), Nat.add_zero, hh]
  have hvalue : packetSizeOf b.order (sizeBuffer (hostToNetwork order p.size)) =
      networkToHost b.order (hostToNetwork order p.size) := by
    rw [packetSizeOf, orBytes_sizeBuffer]
  rw [extractPacketSizeFromBuffer, hread, ← hvalue]
  rfl

theorem ofBuffer_frame (hf : HoldsFrame order p header payload) (hc : p.command.length = commandSize)
    (hp : p.command.length + p.data.length < 2 ^ 15) :
    ofBuffer b p.socket payload p.size = .ok p := by
  have hu := hf.payload
  rw [marshall_drop] at hu
  have hl : (p.command ++ p.data).length = p.command.length + p.data.length :=
    List.length_append
  have hcs : commandSize = 4 := rfl
  have hle := payload.window_le (by omega) hl hu
  have hsize : p.size.toSizeT = (p.command ++ p.data).length := by
    rw [size, toSizeT_ofNat hp, hl]
  rw [ofBuffer_eq b p.socket payload (u := p.command ++ p.data) hsize.le (by omega)
    (fun _ => by omega) (by omega) (by rw [hl]; exact hu), front, hsize, List.take_length,
    List.take_left' hc, List.drop_left' hc]

theorem ofBuffer_data {v : PacketSize} (h : ofBuffer b socket payload v = .ok p) :
    p.data.length = v.toSizeT - commandSize := by
  have hread : ∀ {k : ℕ} {bs : List Byte}, payload.read commandSize k = .ok bs → bs.length = k := by
    intro k bs hr
    unfold Buffer.read at hr
    split_ifs at hr with hk
    cases hr
    exact length_window (by rw [payload.length_arr]; exact hk)
  unfold ofBuffer at h
  rcases ha : assert b (commandSize ≤ v.toSizeT) with stop | u
  · rw [ha] at h
    cases h
  rcases hcmd : payload.read 0 commandSize with stop | command
  · rw [ha, hcmd] at h
    cases h
  rw [ha, hcmd] at h
  split_ifs at h with hv
  · rcases hd : payload.read commandSize (v.toSizeT - commandSize) with stop | data
    · rw [hd] at h
      cases h
    · rw [hd] at h
      cases h
      exact hread hd
  · cases h
    simp only [List.length_nil]
    omega

/-- **The receiver recovers the packet if and only if the hosts have the same byte order
or the two bytes of the length are equal.** -/
theorem decode_frame (hc : p.command.length = commandSize)
    (hp : p.command.length + p.data.length ≤ 32767) (hf : HoldsFrame order p header payload) :
    decode b p.socket header payload = .ok p ↔ order = b.order ∨ byteSwap p.size = p.size := by
  have hdecode : decode b p.socket header payload =
      ofBuffer b p.socket payload (networkToHost b.order (hostToNetwork order p.size)) := by
    rw [decode, extract_frame hf.header]
    rfl
  have hswap : order ≠ b.order →
      networkToHost b.order (hostToNetwork order p.size) = byteSwap p.size := by
    intro ho
    cases order <;> cases hb : b.order <;> simp_all [networkToHost, hostToNetwork]
  have hok := ofBuffer_frame (b := b) hf hc (by omega)
  rw [hdecode]
  constructor
  · intro h
    by_cases ho : order = b.order
    · exact Or.inl ho
    right
    rw [hswap ho] at h
    have hdata := ofBuffer_data h
    have hsize : p.size.toSizeT = p.command.length + p.data.length := by
      rw [size, toSizeT_ofNat (by omega)]
    have hcs : commandSize = 4 := rfl
    by_cases hv : commandSize ≤ (byteSwap p.size).toSizeT
    · exact toSizeT_inj (by omega)
    · -- no data at all is the length 4, which is 1024 the other way round
      have h4 : p.size = 4 := by
        rw [size, hc, show p.data.length = 0 by omega]
        rfl
      rw [h4] at hv
      exact absurd (by decide) hv
  · intro h
    by_cases ho : order = b.order
    · rw [ho, networkToHost_hostToNetwork]
      exact hok
    · rw [hswap ho, h.resolve_left ho]
      exact hok

theorem frameRoom_pos : 0 < 106 := by decide

theorem frameRoom_lt : 106 < 2 ^ 63 := by decide

def sendPacket (data : List Byte) : NetworkPacket := ⟨5, Commands.send, data⟩

theorem length_sendFrame (order : ByteOrder) (data : List Byte) :
    (((sendPacket data).marshall order ++ List.replicate 100 0).take 106).length = 106 := by
  rw [List.length_take, List.length_append, List.length_replicate, marshall, List.length_append,
    List.length_append, length_sizeBuffer]
  have hcommand : (sendPacket data).command.length = 4 := rfl
  simp only [hcommand, sizeBytes]
  omega

/-- The frame of a `SEND` in a buffer of 106 bytes, and its payload behind it. -/
def sendFrame (order : ByteOrder) (data : List Byte) (offset : ℕ) : Buffer 106 :=
  ⟨((sendPacket data).marshall order ++ List.replicate 100 0).take 106, offset,
    length_sendFrame order data, frameRoom_pos, frameRoom_lt⟩

/-- Two bytes between hosts of one order, and between hosts of two. -/
theorem decode_frame_send :
    decode ⟨true, .big⟩ 5 (sendFrame .big [104, 105] 0) (sendFrame .big [104, 105] 2) =
        .ok (sendPacket [104, 105]) ∧
      decode ⟨true, .big⟩ 5 (sendFrame .little [104, 105] 0) (sendFrame .little [104, 105] 2) ≠
        .ok (sendPacket [104, 105]) := by
  have hf : ∀ order, HoldsFrame order (sendPacket [104, 105]) (sendFrame order [104, 105] 0)
      (sendFrame order [104, 105] 2) := by
    rintro (_ | _) <;> exact ⟨by decide, by decide⟩
  refine ⟨(decode_frame (by decide) (by decide) (hf .big)).mpr (Or.inl rfl), fun h => ?_⟩
  exact absurd ((decode_frame (by decide) (by decide) (hf .little)).mp h) (by decide)

/-- From a little-endian host to a big-endian one the length 4 becomes 1024. -/
theorem decode_swapped :
    ¬∀ (m n : ℕ) (b : Build) (order : ByteOrder) (p : NetworkPacket) (header : Buffer m)
      (payload : Buffer n), p.command.length = commandSize →
      p.command.length + p.data.length ≤ 32767 → HoldsFrame order p header payload →
      decode b p.socket header payload = .ok p := by
  intro h
  have hd := h 106 106 ⟨true, .big⟩ .little (sendPacket []) (sendFrame .little [] 0)
    (sendFrame .little [] 2) (by decide) (by decide) ⟨by decide, by decide⟩
  exact absurd hd (by decide)

end PollServer
