import PollServer.Read.Bounds
import PollServer.Read.Whole

/-! What a client's read of one packet has to do with the bytes that came. Whatever its
buffer held before, the first byte of a command that it returns is one of them. -/

namespace PollServer

open Lib StopM NetworkPacket

variable {n : ℕ} {b : Build}

theorem recvLoop_keeps (dontWait : Bool) (size : ℕ) (events : List RecvEvent) (buf : Buffer n)
    (reqs : List Request) (total : ℕ) (v : Attempt) :
    (recvLoop b dontWait size events buf reqs total v).2.buffer.offset = buf.offset ∧
      ∃ took, arrived events =
        took ++ arrived (recvLoop b dontWait size events buf reqs total v).2.events := by
  induction events generalizing buf reqs total v with
  | nil => exact ⟨rfl, [], rfl⟩
  | cons event rest ih =>
    cases event with
    | arrive bytes =>
      by_cases hsize : size ≤ total
      · simp only [recvLoop, if_pos hsize]
        exact ⟨trivial, [], rfl⟩
      simp only [recvLoop, if_neg hsize]
      by_cases hgot : bytes.take (size - total) = []
      · rw [if_pos hgot]
        exact ⟨rfl, bytes, rfl⟩
      rw [if_neg hgot]
      by_cases hstore : buf.offset + total + (bytes.take (size - total)).length ≤ n
      swap
      · rw [Buffer.store_of_lt _ (by omega)]
        exact ⟨rfl, bytes, rfl⟩
      rw [Buffer.store_of_le _ hstore]
      dsimp only
      split_ifs
      · exact ⟨Buffer.stored_offset _ _ _, _, arrived_leftover bytes _ rest⟩
      · obtain ⟨hoffset, took, htook⟩ := ih (buf.stored total (bytes.take (size - total)))
          (reqs ++ [⟨buf.offset + total, size - total⟩])
          (addSize total (bytes.take (size - total)).length) v
        refine ⟨hoffset.trans (Buffer.stored_offset _ _ _), bytes ++ took, ?_⟩
        rw [List.append_assoc, ← htook]
        rfl
    | fail errorCode =>
      simp only [recvLoop]
      split_ifs
      · exact ⟨rfl, [], rfl⟩
      · exact ⟨rfl, [], rfl⟩
      split
      · exact ⟨rfl, [], rfl⟩
      · exact ⟨rfl, [], rfl⟩
      · split_ifs
        · exact ⟨rfl, [], rfl⟩
        · exact ih _ _ _ _

/-- What a receive of the client took, and that it stored all of it. -/
structure Receipt (w w' : Wire n) (took : List Byte) : Prop where
  offset : w'.inb.buffer.offset = w.inb.buffer.offset
  arrived : arrived w.inb.events = took ++ arrived w'.inb.events

theorem pollRecvFixedBytes_received {size timeout : ℕ} (hs : size < 2 ^ 64) {w w' : Wire n}
    {r : Except Stop Result} (h : pollRecvFixedBytes b size timeout w = (r, w')) :
    ∃ took, Receipt w w' took ∧
      ∀ recvData, r = .ok recvData → recvData.isFailure = false → w.inb.buffer.offset ≤ n →
        took ≠ [] ∧ w.inb.buffer.offset + took.length ≤ n ∧
          w'.inb.buffer.arr = overwrite w.inb.buffer.arr w.inb.buffer.offset took := by
  by_cases hp : passes timeout w.polls = true
  · rw [pollRecvFixedBytes_passes b timeout size hp] at h
    obtain ⟨rfl, rfl⟩ := Prod.mk.inj h
    obtain ⟨hoffset, took, htook⟩ :=
      recvLoop_keeps (b := b) true size w.inb.events w.inb.buffer w.inb.requests 0 {}
    refine ⟨took, ⟨hoffset, htook⟩, fun recvData hr hsucc ho => ?_⟩
    have hrun : recvFixedBytes b size true w.inb =
        (.ok recvData, (recvFixedBytes b size true w.inb).2) := Prod.ext hr rfl
    obtain ⟨hresult, hfit, harr⟩ := recvFixedBytes_offer hs ho hrun
    have hevents : (recvFixedBytes b size true w.inb).2.events = (offer b size w.inb.events {}).rest := by
      rw [recvFixedBytes_eq b hs w.inb hfit]
    have hsame : took = (offer b size w.inb.events {}).bytes := by
      rw [arrived_offer b size w.inb.events {}, ← hevents] at htook
      exact (List.append_cancel_right htook).symm
    rw [hsame]
    refine ⟨?_, hfit, harr⟩
    rcases Offer.accepted_or (offer b size w.inb.events {}) with ha | href | ha
    · rw [Offer.result_aborted ha] at hresult
      cases hresult
    · obtain ⟨r', hr', hfail⟩ := Offer.result_refused href
      rw [hresult] at hr'
      cases hr'
      rw [hsucc] at hfail
      cases hfail
    · exact ha.1
  · have hp' : passes timeout w.polls = false := by simpa using hp
    obtain ⟨r', polls, hrecv, hfail⟩ := pollRecvFixedBytes_fails b timeout size hp'
    rw [hrecv] at h
    obtain ⟨rfl, rfl⟩ := Prod.mk.inj h
    refine ⟨[], ⟨rfl, rfl⟩, fun recvData hr hsucc => ?_⟩
    rw [(hfail recvData hr).1] at hsucc
    cases hsucc

theorem Receipt.trans {w w' w'' : Wire n} {took more : List Byte} (h : Receipt w w' took)
    (h' : Receipt w' w'' more) : Receipt w w'' (took ++ more) :=
  ⟨h'.offset.trans h.offset, by rw [h.arrived, h'.arrived, List.append_assoc]⟩

/-- The packets that `Read` makes up when nothing comes. -/
def MadeUp (p : NetworkPacket) : Prop :=
  p.command = Commands.empty ∨ p.command = Commands.MajorErrors.socketClosed

theorem failedPacket_madeUp (socket : ℤ) (recvData : Result) : MadeUp (failedPacket socket recvData) := by
  unfold failedPacket
  split_ifs
  · exact Or.inl rfl
  · exact Or.inr rfl

theorem ofBuffer_head {socket : ℤ} {buf : Buffer n} {v : PacketSize} {p : NetworkPacket} {a took : List Byte}
    (h : ofBuffer b socket buf v = .ok p) (ha : a.length = n) (hne : took ≠ [])
    (harr : buf.arr = overwrite a buf.offset took) : ∃ c ∈ took, p.command.head? = some c := by
  obtain ⟨c, cs, rfl⟩ := List.exists_cons_of_ne_nil hne
  refine ⟨c, List.mem_cons_self, ?_⟩
  simp only [ofBuffer, bind, Except.bind] at h
  split at h
  · cases h
  split at h
  · cases h
  rename_i command hread
  have hcommand : p.command = command := by
    split at h
    · split at h
      · cases h
      · cases h
        rfl
    · cases h
      rfl
  rw [Buffer.read, Nat.add_zero] at hread
  split_ifs at hread with hfit
  cases hread
  have hlen : (a.take buf.offset).length = buf.offset := by
    rw [List.length_take, ha, Nat.min_eq_left (by omega)]
  rw [hcommand, harr, window, overwrite, List.append_assoc, List.drop_left' hlen, List.cons_append,
    commandSize, List.take_succ_cons, List.head?_cons]

theorem readPayload_head {socket : ℤ} {timeout : ℕ} {v : PacketSize} {w w' : Wire n}
    {p : NetworkPacket} (ho : w.inb.buffer.offset ≤ n)
    (h : readPayload b socket timeout v w = (.ok p, w')) :
    ∃ took, Receipt w w' took ∧ (MadeUp p ∨ ∃ c ∈ took, p.command.head? = some c) := by
  rcases hassert : assert b (v.toSizeT < w.inb.buffer.size) with stop | _
  · rw [readPayload, bind_error (show ask _ w = (.error stop, w) by simp only [ask, hassert])] at h
    cases h
  rw [readPayload, bind_ok (show ask _ w = (.ok (), w) by simp only [ask, hassert])] at h
  rcases hrecv : pollRecvFixedBytes b v.toSizeT timeout w with ⟨stop | recvData, w1⟩
  · rw [bind_error hrecv] at h
    cases h
  obtain ⟨took, hreceipt, hstored⟩ := pollRecvFixedBytes_received (BitVec.isLt _) hrecv
  rw [bind_ok hrecv] at h
  split_ifs at h with hfail
  · obtain ⟨hp, rfl⟩ := Prod.mk.inj h
    cases hp
    exact ⟨took, hreceipt, Or.inl (failedPacket_madeUp _ _)⟩
  rcases hcount : assert b (recvData.noOfBytes = v.toSizeT) with stop | _
  · rw [bind_error (show ask _ w1 = (.error stop, w1) by simp only [ask, hcount])] at h
    cases h
  rw [bind_ok (show ask _ w1 = (.ok (), w1) by simp only [ask, hcount])] at h
  obtain ⟨hp, rfl⟩ := Prod.mk.inj h
  obtain ⟨hne, -, harr⟩ := hstored recvData rfl (by simpa using hfail) ho
  rw [← hreceipt.offset] at harr
  exact ⟨took, hreceipt, Or.inr (ofBuffer_head hp w.inb.buffer.length_arr hne harr)⟩

/-- **What a client reads begins with a byte that came**, or it is made up. -/
theorem readPacket_head {socket : ℤ} {timeout : ℕ} {w w' : Wire n} {p : NetworkPacket}
    (h : readPacket b socket timeout w = (.ok p, w')) :
    ∃ took, arrived w.inb.events = took ++ arrived w'.inb.events ∧
      (MadeUp p ∨ ∃ c ∈ took, p.command.head? = some c) := by
  rcases hrecv : pollRecvFixedBytes b sizeBytes timeout w with ⟨stop | recvData, w1⟩
  · rw [readPacket, bind_error hrecv] at h
    cases h
  obtain ⟨took, hreceipt, -⟩ := pollRecvFixedBytes_received (show sizeBytes < 2 ^ 64 by decide) hrecv
  rw [readPacket, bind_ok hrecv] at h
  split_ifs at h with hfail
  · obtain ⟨hp, rfl⟩ := Prod.mk.inj h
    cases hp
    exact ⟨took, hreceipt.arrived, Or.inl (failedPacket_madeUp _ _)⟩
  rcases hsize : extractPacketSizeFromBuffer b w1.inb.buffer with stop | v
  · rw [bind_error (show ask _ w1 = (.error stop, w1) by simp only [ask, hsize])] at h
    cases h
  rw [bind_ok (show ask _ w1 = (.ok v, w1) by simp only [ask, hsize])] at h
  have ho : w1.inb.buffer.offset ≤ n := by
    by_contra hlt
    have hread : w1.inb.buffer.read 0 sizeBytes = .error .outOfBounds := if_neg (by omega)
    simp only [extractPacketSizeFromBuffer, hread] at hsize
    cases hsize
  obtain ⟨more, hmore, hhead⟩ := readPayload_head ho h
  refine ⟨took ++ more, (hreceipt.trans hmore).arrived, hhead.imp_right fun hex => ?_⟩
  obtain ⟨c, hc, heq⟩ := hex
  exact ⟨c, List.mem_append_right took hc, heq⟩

end PollServer
