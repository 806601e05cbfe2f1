import PollServer.Read.Whole

/-! What a receive reports of what it stored, with and without `MSG_DONTWAIT`. -/

namespace PollServer

open Lib

section Reports

variable {n size : ℕ} {b : Build} {inb : Inbound n}

/-- `r` counts the bytes `got`: they are the next of the stream, and lie at `data()`. -/
structure Stored (size : ℕ) (inb : Inbound n) (got : List Byte) (r : Result) (inb' : Inbound n) :
    Prop where
  le : got.length ≤ size
  next : arrived inb.events = got ++ arrived inb'.events
  fits : inb.buffer.offset + got.length ≤ n
  stored : inb'.buffer.arr = overwrite inb.buffer.arr inb.buffer.offset got
  count : r.noOfBytes = got.length
  failure : got = [] → r.isFailure = true

/-- A receive returns with a count of what it stored. An assert may end it before, and so may
bytes that `data()` has no room for. -/
structure Reports (b : Build) (size : ℕ) (inb : Inbound n) (out : Except Stop Result × Inbound n) :
    Prop where
  stops : ∀ stop, out.1 = .error stop →
    (stop = .assertion ∧ b.asserts = true) ∨ (stop = .outOfBounds ∧ n < inb.buffer.offset + size)
  counts : ∀ r, out.1 = .ok r → ∃ got, Stored size inb got r out.2

theorem Reports.of_ok {r : Result} {inb' : Inbound n} {got : List Byte}
    (h : Stored size inb got r inb') : Reports b size inb (.ok r, inb') where
  stops stop hstop := by cases hstop
  counts r' hr' := by
    cases hr'
    exact ⟨got, h⟩

theorem Reports.of_overrun {inb' : Inbound n} (h : n < inb.buffer.offset + size) :
    Reports b size inb (.error .outOfBounds, inb') where
  stops stop hstop := by
    cases hstop
    exact Or.inr ⟨rfl, h⟩
  counts r hr := by cases hr

theorem reports_dontWait (hs : size < 2 ^ 64) (ho : inb.buffer.offset ≤ n) :
    Reports b size inb (recvFixedBytes b size true inb) := by
  have hle := offer_length_le b size inb.events {}
  refine ⟨fun stop hstop => ?_, fun r hr => ?_⟩
  · by_cases hn : inb.buffer.offset + (offer b size inb.events {}).bytes.length ≤ n
    · rw [recvFixedBytes_eq b hs inb hn] at hstop
      dsimp only [Offer.result] at hstop
      split_ifs at hstop with ha
      cases hstop
      refine Or.inl ⟨rfl, ?_⟩
      by_contra hb
      exact offer_off (by simpa using hb) size inb.events {} ha
    · rw [recvFixedBytes_overrun b hs inb ho (by omega)] at hstop
      cases hstop
      exact Or.inr ⟨rfl, by omega⟩
  · obtain ⟨hresult, hn, harr⟩ := recvFixedBytes_offer hs ho (Prod.ext hr rfl)
    refine ⟨_, hle, ?_, hn, harr, ?_, ?_⟩
    · rw [recvFixedBytes_eq b hs inb hn]
      exact arrived_offer b size inb.events {}
    all_goals
      dsimp only [Offer.result] at hresult
      split_ifs at hresult
      cases hresult
    · exact Nat.zero_add _
    · intro hnil
      simp [Result.isFailure, hnil]

theorem reports_wait (hpos : 0 < size) (hs : size < 2 ^ 64) (ho : inb.buffer.offset ≤ n)
    (hfail : ∀ errorCode, inb.events.head? ≠ some (.fail errorCode)) :
    Reports b size inb (recvFixedBytes b size false inb) := by
  obtain ⟨buf, events, reqs⟩ := inb
  have hnothing : ∀ {inb' : Inbound n}, inb'.buffer = buf → arrived events = arrived inb'.events →
      Reports b size ⟨buf, events, reqs⟩ (.ok {}, inb') := by
    intro inb' hbuf hevents
    have hstored : Stored size ⟨buf, events, reqs⟩ [] {} inb' :=
      ⟨Nat.zero_le _, hevents, ho, by rw [hbuf, overwrite_nil], rfl, fun _ => rfl⟩
    exact .of_ok hstored
  cases events with
  | nil =>
    have hrun : recvFixedBytes b size false ⟨buf, [], reqs⟩ =
        (.ok {}, ⟨buf, [], reqs ++ [⟨buf.offset + 0, size - 0⟩]⟩) := by
      simp only [recvFixedBytes, recvLoop, if_pos hpos]
    rw [hrun]
    exact hnothing rfl rfl
  | cons event rest =>
    cases event with
    | fail errorCode => exact absurd rfl (hfail errorCode)
    | arrive bytes =>
      simp only [recvFixedBytes, recvLoop, if_neg (not_le.mpr hpos), Nat.sub_zero]
      by_cases hgot : bytes.take size = []
      · have hnil : bytes = [] := by
          rcases List.take_eq_nil_iff.mp hgot with h0 | hnil
          · omega
          · exact hnil
        rw [if_pos hgot]
        exact hnothing rfl (by rw [hnil]; rfl)
      rw [if_neg hgot]
      have hle : (bytes.take size).length ≤ size := List.length_take_le _ _
      by_cases hn : buf.offset + 0 + (bytes.take size).length ≤ n
      · rw [Buffer.store_of_le _ hn]
        simp only [true_or, if_true, addSize_of_lt (show 0 + (bytes.take size).length < 2 ^ 64 by omega)]
        refine .of_ok ⟨hle, ?_, hn, Buffer.stored_arr _ hn, Nat.zero_add _, fun h => absurd h hgot⟩
        have htake : bytes.take (bytes.take size).length = bytes.take size := by
          rw [List.length_take, ← List.take_eq_take_min]
        have hleft := arrived_leftover bytes (bytes.take size).length rest
        rwa [htake] at hleft
      · rw [Buffer.store_of_lt _ (by omega)]
        exact .of_overrun (by dsimp only; omega)

theorem recvFixedBytes_wait_fail (hpos : 0 < size) (buf : Buffer n) (errorCode : Errno)
    (rest : List RecvEvent) (reqs : List Request) :
    recvFixedBytes b size false ⟨buf, .fail errorCode :: rest, reqs⟩ =
      (.ok { noOfBytes := 2 ^ 64 - 1 }, ⟨buf, rest, reqs ++ [⟨buf.offset + 0, size - 0⟩]⟩) := by
  simp only [recvFixedBytes, recvLoop, if_neg (not_le.mpr hpos), if_true]
  rfl

theorem recvFixedBytes_reports (hpos : 0 < size) (hs : size < 2 ^ 64) (ho : inb.buffer.offset ≤ n)
    (dontWait : Bool) :
    Reports b size inb (recvFixedBytes b size dontWait inb) ↔
      dontWait = true ∨ ∀ errorCode, inb.events.head? ≠ some (.fail errorCode) := by
  refine ⟨fun h => ?_, ?_⟩
  · by_contra hc
    obtain ⟨hwait, hfail⟩ := not_or.mp hc
    obtain ⟨errorCode, herror⟩ := not_forall_not.mp hfail
    obtain ⟨buf, events, reqs⟩ := inb
    obtain ⟨rest, rfl⟩ : ∃ rest, events = .fail errorCode :: rest := List.head?_eq_some_iff.mp herror
    rw [Bool.not_eq_true] at hwait
    rw [hwait, recvFixedBytes_wait_fail hpos] at h
    obtain ⟨got, hgot⟩ := h.counts _ rfl
    have hcount := hgot.count
    have hsize := buf.size_lt
    have hfits := hgot.fits
    dsimp only at hcount hfits
    omega
  · rintro (rfl | hfail)
    · exact reports_dontWait hs ho
    · cases dontWait
      · exact reports_wait hpos hs ho hfail
      · exact reports_dontWait hs ho

/-- **`recv` and `recvFixedBytes` report what they received** if and only if the call is not one
that waits and fails. -/
theorem recv_reports (b : Build) (inb : Inbound n) (ho : inb.buffer.offset ≤ n) (dontWait : Bool) :
    (∀ size, 0 < size → size < 2 ^ 64 → (Reports b size inb (recvFixedBytes b size dontWait inb) ↔
      dontWait = true ∨ ∀ errorCode, inb.events.head? ≠ some (.fail errorCode))) ∧
    (0 < inb.buffer.size → (Reports b inb.buffer.size inb (recv b dontWait inb) ↔
      dontWait = true ∨ ∀ errorCode, inb.events.head? ≠ some (.fail errorCode))) := by
  have hn := inb.buffer.size_lt
  have hsize := Buffer.size_of_le inb.buffer ho
  exact ⟨fun size hpos hs => recvFixedBytes_reports hpos hs ho dontWait,
    fun hpos => recvFixedBytes_reports hpos (by omega) ho dontWait⟩

end Reports

/-- Four bytes for a receive that waits. -/
theorem recv_reports_send :
    let inb : Inbound 106 := ⟨sampleBuffer, [.arrive Commands.send], []⟩
    Reports ⟨true, .little⟩ 4 inb (recvFixedBytes ⟨true, .little⟩ 4 false inb) ∧
      Reports ⟨true, .little⟩ inb.buffer.size inb (recv ⟨true, .little⟩ false inb) := by
  intro inb
  have hfail : ∀ errorCode, inb.events.head? ≠ some (.fail errorCode) := by
    intro errorCode h
    cases h
  obtain ⟨hfixed, hrecv⟩ := recv_reports ⟨true, .little⟩ inb (by decide) false
  exact ⟨(hfixed 4 (by decide) (by decide)).mpr (.inr hfail), (hrecv (by decide)).mpr (.inr hfail)⟩

/-- A reset connection is reported as `2 ^ 64 - 1` bytes. -/
theorem recv_misreports :
    ¬∀ (n : ℕ) (b : Build) (inb : Inbound n) (dontWait : Bool), inb.buffer.offset ≤ n →
      0 < inb.buffer.size → Reports b inb.buffer.size inb (recv b dontWait inb) := by
  intro h
  obtain ⟨got, hgot⟩ := (h 106 ⟨true, .little⟩ ⟨sampleBuffer, [.fail .econnreset], []⟩ false
    (by decide) (by decide)).counts _ rfl
  exact absurd (hgot.count.trans_le hgot.le) (by decide)

end PollServer
