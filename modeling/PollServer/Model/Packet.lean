import PollServer.Model.Buffer

/-! `Commands.hpp` and `Packet.hpp` at `N = 2`: the length field, `marshall`, and the
constructor that copies a packet out of the buffer. -/

namespace PollServer

open Lib

namespace Commands

def ascii (cs : List Char) : List Byte := cs.map fun c => BitVec.ofNat 8 c.toNat

def send : List Byte := ascii ['S', 'E', 'N', 'D']
def deadlineCrossed : List Byte := ascii ['D', 'E', 'D', 'C']
def empty : List Byte := ascii ['E', 'M', 'T', 'Y']
def heartBeat : List Byte := ascii ['H', 'A', 'R', 'T']
def blank : List Byte := ascii ['B', 'L', 'N', 'K']

namespace Setup
def ack : List Byte := ascii ['A', 'C', 'K', 'A']
def syn : List Byte := ascii ['A', 'C', 'K', 'S']
def clientID : List Byte := ascii ['A', 'C', 'I', 'D']
def join : List Byte := ascii ['J', 'O', 'I', 'N']
end Setup

namespace MajorErrors
def socketClosed : List Byte := ascii ['E', 'R', 'C', 'L']
end MajorErrors

theorem send_ne : send ≠ blank ∧ send ≠ Setup.ack ∧ send ≠ Setup.clientID := by decide

end Commands

/-- `numeric::Integral<2>::type`, a signed 16-bit integer. -/
abbrev PacketSize := BitVec 16

/-- The conversion of a `PacketSize` to `size_t`, which extends the sign. -/
def PacketSize.toSizeT (v : PacketSize) : ℕ := (v.signExtend 64).toNat

def byteSwap (v : PacketSize) : PacketSize := (v <<< 8) ||| (v >>> 8)

/-- `ntohs` and `htons` on a host of either byte order. -/
def networkToHost (order : ByteOrder) (v : PacketSize) : PacketSize :=
  match order with
  | .little => byteSwap v
  | .big => v

def hostToNetwork (order : ByteOrder) (v : PacketSize) : PacketSize :=
  match order with
  | .little => byteSwap v
  | .big => v

structure NetworkPacket where
  socket : ℤ
  command : List Byte
  data : List Byte
  deriving DecidableEq

namespace NetworkPacket

def sizeBytes : ℕ := 2

/-- The size of every command, to which the constructor resizes `command`. -/
def commandSize : ℕ := 4

def size (p : NetworkPacket) : PacketSize := BitVec.ofNat 16 (p.command.length + p.data.length)

def sizeBuffer (packetSize : PacketSize) : List Byte :=
  (List.range sizeBytes).map fun i => ((packetSize.signExtend 32).sshiftRight (8 * i)).setWidth 8

def marshall (order : ByteOrder) (p : NetworkPacket) : List Byte :=
  sizeBuffer (hostToNetwork order p.size) ++ p.command ++ p.data

/-- `bytesToRead |= (unsigned char)buffer[i] << (CHAR_BIT * i)` for each byte. -/
def orBytes (bytes : List Byte) : PacketSize :=
  bytes.zipIdx.foldl (fun (acc : PacketSize) (byte, i) => acc ||| (byte.setWidth 16 <<< (8 * i))) 0

def packetSizeOf (order : ByteOrder) (bytes : List Byte) : PacketSize :=
  networkToHost order (orBytes bytes)

def extractPacketSizeFromBuffer {n : ℕ} (b : Build) (buf : Buffer n) : Except Stop PacketSize := do
  return packetSizeOf b.order (← buf.read 0 sizeBytes)

/-- The constructor over a buffer, `extractDataFromBuffer` with it. -/
def ofBuffer {n : ℕ} (b : Build) (socket : ℤ) (buf : Buffer n) (bytesToRead : PacketSize) :
    Except Stop NetworkPacket := do
  assert b (commandSize ≤ bytesToRead.toSizeT)
  let command ← buf.read 0 commandSize
  let data ← if commandSize < bytesToRead.toSizeT then
      buf.read commandSize (bytesToRead.toSizeT - commandSize)
    else pure []
  return ⟨socket, command, data⟩

end NetworkPacket

open NetworkPacket

/-- The packet of `packetSize` bytes at the front of `bytes`. -/
def NetworkPacket.front (socket : ℤ) (packetSize : ℕ) (bytes : List Byte) : NetworkPacket :=
  ⟨socket, bytes.take commandSize, (bytes.take packetSize).drop commandSize⟩

@[simp] theorem byteSwap_byteSwap (v : PacketSize) : byteSwap (byteSwap v) = v := by
  apply BitVec.eq_of_getElem_eq
  intro i hi
  simp only [byteSwap, BitVec.getElem_or, BitVec.getElem_shiftLeft, BitVec.getElem_ushiftRight,
    BitVec.getLsbD_or, BitVec.getLsbD_shiftLeft, BitVec.getLsbD_ushiftRight]
  interval_cases i <;> simp

theorem networkToHost_hostToNetwork (order : ByteOrder) (v : PacketSize) :
    networkToHost order (hostToNetwork order v) = v := by
  cases order <;> simp [networkToHost, hostToNetwork]

theorem orBytes_pair (b0 b1 : Byte) : orBytes [b0, b1] = b0.setWidth 16 ||| (b1.setWidth 16 <<< 8) := by
  simp [orBytes, List.zipIdx]

theorem orBytes_sizeBuffer (v : PacketSize) : orBytes (sizeBuffer v) = v := by
  simp only [sizeBuffer, sizeBytes, List.range, List.range.loop, List.map_cons, List.map_nil,
    orBytes_pair]
  apply BitVec.eq_of_getElem_eq
  intro i hi
  simp only [BitVec.getElem_or, BitVec.getElem_setWidth, BitVec.getElem_shiftLeft,
    BitVec.getLsbD_setWidth, BitVec.getLsbD_sshiftRight, BitVec.getLsbD_signExtend]
  interval_cases i <;> simp

theorem length_sizeBuffer (v : PacketSize) : (sizeBuffer v).length = sizeBytes := by
  simp [sizeBuffer]

/-- What the sender puts in the length field is what a receiver of the same byte
order takes out of it. -/
theorem packetSizeOf_sizeBuffer (order : ByteOrder) (v : PacketSize) :
    packetSizeOf order (sizeBuffer (hostToNetwork order v)) = v := by
  rw [packetSizeOf, orBytes_sizeBuffer, networkToHost_hostToNetwork]

theorem toSizeT_ofNat {k : ℕ} (h : k < 2 ^ 15) : PacketSize.toSizeT (BitVec.ofNat 16 k) = k := by
  have hk : k % 65536 = k := Nat.mod_eq_of_lt (by omega)
  have hm : (BitVec.ofNat 16 k).msb = false := by
    rw [BitVec.msb_eq_decide]
    simp only [BitVec.toNat_ofNat, decide_eq_false_iff_not, not_le]
    omega
  rw [PacketSize.toSizeT, BitVec.signExtend_eq_setWidth_of_msb_false hm]
  simp only [BitVec.toNat_setWidth, BitVec.toNat_ofNat]
  omega

/-- A length below the largest array is a non-negative `int16`, so narrowing it back
for the constructor changes nothing. -/
theorem toSizeT_narrow {v : PacketSize} (h : v.toSizeT < 2 ^ 63) :
    v.toSizeT < 2 ^ 15 ∧ BitVec.ofNat 16 v.toSizeT = v := by
  rw [PacketSize.toSizeT] at h ⊢
  cases hm : v.msb
  · rw [BitVec.signExtend_eq_setWidth_of_msb_false hm] at h ⊢
    rw [BitVec.msb_eq_decide] at hm
    simp only [decide_eq_false_iff_not, not_le] at hm
    refine ⟨by simp only [BitVec.toNat_setWidth]; omega, ?_⟩
    apply BitVec.eq_of_toNat_eq
    simp only [BitVec.toNat_ofNat, BitVec.toNat_setWidth]
    omega
  · exfalso
    have hs : (v.signExtend 64).msb = true := by simp [BitVec.msb_signExtend, hm]
    rw [BitVec.msb_eq_decide] at hs
    simp only [decide_eq_true_eq] at hs
    omega

theorem toSizeT_inj {v w : PacketSize} (h : v.toSizeT = w.toSizeT) : v = w := by
  have hs : v.signExtend 64 = w.signExtend 64 := BitVec.eq_of_toNat_eq h
  have ht := congrArg BitVec.toInt hs
  rw [BitVec.toInt_signExtend_of_le (by omega), BitVec.toInt_signExtend_of_le (by omega)] at ht
  exact BitVec.eq_of_toInt_eq ht

section OfBuffer

variable {n : ℕ} (b : Build) (socket : ℤ) (buf : Buffer n)

theorem ofBuffer_eq {v : PacketSize} {u : List Byte} (hv : v.toSizeT ≤ u.length)
    (hc : commandSize ≤ u.length) (ha : b.asserts = true → commandSize ≤ v.toSizeT)
    (hn : buf.offset + u.length ≤ n) (hu : window buf.arr buf.offset u.length = u) :
    ofBuffer b socket buf v = .ok (front socket v.toSizeT u) := by
  have hassert : assert b (commandSize ≤ v.toSizeT) = .ok () := by
    unfold assert
    rw [if_neg]
    rintro ⟨h1, h2⟩
    exact h2 (ha h1)
  have hcmd : buf.read 0 commandSize = .ok (u.take commandSize) := by
    rw [Buffer.read, if_pos (by omega), Nat.add_zero, window_take hu hc]
  simp only [ofBuffer, hassert, hcmd]
  by_cases h : commandSize < v.toSizeT
  · have hd : buf.read commandSize (v.toSizeT - commandSize) =
        .ok ((u.take v.toSizeT).drop commandSize) := by
      have ht := window_take hu hv
      have hl : (u.take v.toSizeT).length = v.toSizeT := by simp [hv]
      have hw := window_drop (u := u.take v.toSizeT) (by rw [hl]; exact ht)
        (show commandSize ≤ (u.take v.toSizeT).length by omega)
      rw [hl] at hw
      rw [Buffer.read, if_pos (by omega), hw]
    simp only [if_pos h, hd]
    rfl
  · have he : (u.take v.toSizeT).drop commandSize = [] :=
      List.drop_of_length_le (by simp only [List.length_take]; omega)
    simp only [if_neg h, front, he]
    rfl

end OfBuffer

end PollServer
