import PollServer.Write.Hosts

/-! `Marshall` and the constructor over a buffer on one host: what the length field says of
a frame, and that encoding and decoding are inverse to each other as long as it fits. -/

namespace PollServer

open Lib NetworkPacket

/-- A size is taken modulo `2 ^ 16`, and its upper half is negative. -/
theorem toSizeT_ofNat_eq (k : ℕ) :
    PacketSize.toSizeT (BitVec.ofNat 16 k) =
      if k % 2 ^ 16 < 2 ^ 15 then k % 2 ^ 16 else k % 2 ^ 16 + (2 ^ 64 - 2 ^ 16) := by
  have hlt : k % 2 ^ 16 < 2 ^ 16 := Nat.mod_lt _ (by decide)
  rw [PacketSize.toSizeT, BitVec.toNat_signExtend, BitVec.msb_eq_decide, BitVec.toNat_setWidth,
    BitVec.toNat_ofNat]
  by_cases h : k % 2 ^ 16 < 2 ^ 15
  · have hm : ¬2 ^ (16 - 1) ≤ k % 2 ^ 16 := by omega
    rw [if_pos h, if_neg (by simpa using hm)]
    omega
  · have hm : 2 ^ (16 - 1) ≤ k % 2 ^ 16 := by omega
    rw [if_neg h, if_pos (by simpa using hm)]
    omega

theorem toSizeT_ofNat_iff (k : ℕ) :
    PacketSize.toSizeT (BitVec.ofNat 16 k) = k ↔
      k ≤ 32767 ∨ 2 ^ 64 - 2 ^ 15 ≤ k ∧ k < 2 ^ 64 := by
  rw [toSizeT_ofNat_eq]
  split_ifs <;> omega

theorem hostToNetwork_networkToHost (order : ByteOrder) (v : PacketSize) :
    hostToNetwork order (networkToHost order v) = v := by
  cases order <;> simp [networkToHost, hostToNetwork]

theorem sizeBuffer_orBytes {bytes : List Byte} (h : bytes.length = sizeBytes) :
    sizeBuffer (orBytes bytes) = bytes := by
  obtain ⟨x, y, rfl⟩ := List.length_eq_two.mp h
  have hlow : ((orBytes [x, y]).signExtend 32).setWidth 8 = x := by
    rw [orBytes_pair]
    apply BitVec.eq_of_getElem_eq
    intro i hi
    simp only [BitVec.getElem_setWidth, BitVec.getLsbD_signExtend]
    interval_cases i <;> simp
  have hhigh : (((orBytes [x, y]).signExtend 32).sshiftRight 8).setWidth 8 = y := by
    rw [orBytes_pair]
    apply BitVec.eq_of_getElem_eq
    intro i hi
    simp only [BitVec.getElem_setWidth, BitVec.getLsbD_sshiftRight, BitVec.getLsbD_signExtend]
    interval_cases i <;> simp
  simp only [sizeBuffer, sizeBytes, List.range, List.range.loop, List.map_cons, List.map_nil,
    Nat.mul_zero, BitVec.sshiftRight_zero, Nat.mul_one, hlow, hhigh]

variable {m n : ℕ} {b : Build} {socket : ℤ} {p : NetworkPacket} {header : Buffer m}
  {payload : Buffer n}

theorem length_marshall_drop (order : ByteOrder) (p : NetworkPacket) :
    ((p.marshall order).drop sizeBytes).length = p.command.length + p.data.length := by
  rw [marshall_drop, List.length_append]

/-- **The length field says how many bytes follow it**, if and only if there are 32767 at
most: from there on it wraps. (The other numbers are those of a wrap all around.) -/
theorem extract_honest
    (hh : window header.arr header.offset sizeBytes = (p.marshall b.order).take sizeBytes) :
    (∃ packetSize, extractPacketSizeFromBuffer b header = .ok packetSize ∧
      packetSize.toSizeT = ((p.marshall b.order).drop sizeBytes).length) ↔
    p.command.length + p.data.length ≤ 32767 ∨
      2 ^ 64 - 2 ^ 15 ≤ p.command.length + p.data.length ∧
        p.command.length + p.data.length < 2 ^ 64 := by
  rw [extract_frame hh, networkToHost_hostToNetwork, length_marshall_drop, ← toSizeT_ofNat_iff]
  constructor
  · rintro ⟨packetSize, hsize, hlen⟩
    cases hsize
    exact hlen
  · intro hlen
    exact ⟨p.size, rfl, hlen⟩

/-- The length field of a frame in a buffer of 106 bytes. -/
def lengthField (order : ByteOrder) (p : NetworkPacket) : Buffer 106 :=
  ⟨sizeBuffer (hostToNetwork order p.size) ++ List.replicate 104 0, 0,
    by rw [List.length_append, length_sizeBuffer]; rfl, frameRoom_pos, frameRoom_lt⟩

theorem window_lengthField (order : ByteOrder) (p : NetworkPacket) :
    window (lengthField order p).arr (lengthField order p).offset sizeBytes =
      (p.marshall order).take sizeBytes := by
  rw [marshall_take]
  exact List.take_left' (length_sizeBuffer _)

theorem extract_honest_send :
    ∃ packetSize,
      extractPacketSizeFromBuffer ⟨true, .little⟩ (lengthField .little (sendPacket [104, 105])) =
        .ok packetSize ∧
      packetSize.toSizeT = (((sendPacket [104, 105]).marshall .little).drop sizeBytes).length :=
  (extract_honest (b := ⟨true, .little⟩) (p := sendPacket [104, 105])
    (window_lengthField .little _)).mpr (Or.inl (by decide))

/-- A response of 32768 bytes is announced as one of `2 ^ 64 - 32768`. -/
theorem extract_wraps :
    ¬∀ (m : ℕ) (b : Build) (p : NetworkPacket) (header : Buffer m),
      window header.arr header.offset sizeBytes = (p.marshall b.order).take sizeBytes →
      ∃ packetSize, extractPacketSizeFromBuffer b header = .ok packetSize ∧
        packetSize.toSizeT = ((p.marshall b.order).drop sizeBytes).length := by
  intro h
  obtain ⟨data, hdata⟩ : ∃ data : List Byte, data.length = 32764 :=
    ⟨List.replicate 32764 0, List.length_replicate⟩
  obtain ⟨packetSize, hsize, hhonest⟩ := h 106 ⟨true, .little⟩ ⟨5, Commands.send, data⟩ _
    (window_lengthField .little _)
  rw [extract_frame (window_lengthField .little _), networkToHost_hostToNetwork] at hsize
  rw [← Except.ok.inj hsize, length_marshall_drop, NetworkPacket.size, toSizeT_ofNat_iff] at hhonest
  have hcommand : Commands.send.length = 4 := rfl
  dsimp only at hhonest
  omega

/-- The buffers hold the length field of `bytes`, and the `k` bytes behind it. -/
structure HoldsParts (bytes : List Byte) (k : ℕ) (header : Buffer m) (payload : Buffer n) :
    Prop where
  header : window header.arr header.offset sizeBytes = bytes.take sizeBytes
  payload : window payload.arr payload.offset k = (bytes.drop sizeBytes).take k

theorem decode_parts {bytes : List Byte} {packetSize : PacketSize}
    (hs : packetSizeOf b.order (bytes.take sizeBytes) = packetSize)
    (hc : commandSize ≤ packetSize.toSizeT)
    (hl : sizeBytes + packetSize.toSizeT ≤ bytes.length)
    (hp : HoldsParts bytes packetSize.toSizeT header payload) :
    decode b socket header payload =
      .ok (front socket packetSize.toSizeT ((bytes.drop sizeBytes).take packetSize.toSizeT)) := by
  have hhead : (bytes.take sizeBytes).length = sizeBytes := by
    rw [List.length_take, Nat.min_eq_left (by omega)]
  have hbody : ((bytes.drop sizeBytes).take packetSize.toSizeT).length = packetSize.toSizeT := by
    rw [List.length_take, List.length_drop, Nat.min_eq_left (by omega)]
  have hle := header.window_le (by decide) hhead hp.header
  have hread : header.read 0 sizeBytes = .ok (bytes.take sizeBytes) := by
    rw [Buffer.read, if_pos (by omega), Nat.add_zero, hp.header]
  have hextract : extractPacketSizeFromBuffer b header = .ok packetSize := by
    rw [extractPacketSizeFromBuffer, hread, ← hs]
    rfl
  have hfit := payload.window_le (Nat.lt_of_lt_of_le (by decide) hc) hbody hp.payload
  rw [decode, hextract]
  exact ofBuffer_eq b socket payload hbody.ge (by omega) (fun _ => hc) (by omega)
    (by rw [hbody]; exact hp.payload)

theorem marshall_front {bytes : List Byte} {order : ByteOrder} {packetSize : PacketSize}
    (hs : packetSizeOf order (bytes.take sizeBytes) = packetSize)
    (hlt : packetSize.toSizeT < 2 ^ 63)
    (hl : sizeBytes + packetSize.toSizeT ≤ bytes.length) :
    (front socket packetSize.toSizeT
      ((bytes.drop sizeBytes).take packetSize.toSizeT)).marshall order =
        bytes.take (sizeBytes + packetSize.toSizeT) := by
  have hhead : (bytes.take sizeBytes).length = sizeBytes := by
    rw [List.length_take, Nat.min_eq_left (by omega)]
  set body := (bytes.drop sizeBytes).take packetSize.toSizeT with hbody
  have hlen : body.length = packetSize.toSizeT := by
    rw [hbody, List.length_take, List.length_drop, Nat.min_eq_left (by omega)]
  have hall : body.take packetSize.toSizeT = body := List.take_of_length_le hlen.le
  have hparts : (front socket packetSize.toSizeT body).command ++
      (front socket packetSize.toSizeT body).data = body := by
    rw [front, hall]
    exact List.take_append_drop _ _
  have hsize : (front socket packetSize.toSizeT body).size = packetSize := by
    rw [NetworkPacket.size, ← List.length_append, hparts, hlen]
    exact (toSizeT_narrow hlt).2
  have hfield : sizeBuffer (hostToNetwork order packetSize) = bytes.take sizeBytes := by
    rw [← hs, packetSizeOf, hostToNetwork_networkToHost, sizeBuffer_orBytes hhead]
  rw [marshall, List.append_assoc, hparts, hsize, hfield, List.take_add]

/-- **Decoding and encoding are inverse to each other**: a packet that fits comes back out
of its frame, and a frame out of the packet that is decoded from it. -/
theorem codec_inverse (b : Build) :
    (∀ (p : NetworkPacket) (m n : ℕ) (header : Buffer m) (payload : Buffer n),
      p.command.length = commandSize → p.command.length + p.data.length ≤ 32767 →
      HoldsFrame b.order p header payload → decode b p.socket header payload = .ok p) ∧
    ∀ (bytes : List Byte) (socket : ℤ) (packetSize : PacketSize) (m n : ℕ) (header : Buffer m)
      (payload : Buffer n), packetSizeOf b.order (bytes.take sizeBytes) = packetSize →
      commandSize ≤ packetSize.toSizeT → packetSize.toSizeT ≤ 32767 →
      sizeBytes + packetSize.toSizeT ≤ bytes.length →
      HoldsParts bytes packetSize.toSizeT header payload →
      ∃ p, decode b socket header payload = .ok p ∧
        p.marshall b.order = bytes.take (sizeBytes + packetSize.toSizeT) := by
  constructor
  · intro p m n header payload hc hp hf
    rw [decode, extract_frame hf.header, networkToHost_hostToNetwork]
    exact ofBuffer_frame hf hc (by omega)
  · intro bytes socket packetSize m n header payload hs hc hp hl hparts
    exact ⟨_, decode_parts hs hc hl hparts, marshall_front hs (by omega) hl⟩

/-- A `SEND` of two bytes both ways. -/
theorem codec_inverse_send :
    decode ⟨true, .little⟩ 5 (sendFrame .little [104, 105] 0) (sendFrame .little [104, 105] 2) =
        .ok (sendPacket [104, 105]) ∧
      ∃ p, decode ⟨true, .little⟩ 5 (sendFrame .little [104, 105] 0)
          (sendFrame .little [104, 105] 2) = .ok p ∧
        p.marshall .little = ([0, 6] ++ Commands.send ++ [104, 105] ++ [0, 4]).take 8 :=
  ⟨(codec_inverse ⟨true, .little⟩).1 (sendPacket [104, 105]) 106 106 (sendFrame .little [104, 105] 0)
      (sendFrame .little [104, 105] 2) (by decide) (by decide) ⟨by decide, by decide⟩,
    (codec_inverse ⟨true, .little⟩).2 ([0, 6] ++ Commands.send ++ [104, 105] ++ [0, 4]) 5 6 106 106
      (sendFrame .little [104, 105] 0) (sendFrame .little [104, 105] 2) (by decide) (by decide)
      (by decide) (by decide) ⟨by decide, by decide⟩⟩

end PollServer
