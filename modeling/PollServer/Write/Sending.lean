import PollServer.Lib.Pieces
import PollServer.Read.Offer

/-! `TCP::sendRaw`. Every `send` is given the message from its start, also after one that
took only a part of it, and so the message arrives as it is only where its bytes repeat. -/

namespace PollServer

open Lib

/-- The counts that the `send`s of the loop return, entered with `total` bytes sent. -/
def sendCounts (b : Build) (len : ℕ) : List SendEvent → ℕ → Attempt → List ℕ
  | [], total, _ => if total < len then [len] else []
  | event :: rest, total, v =>
    if total < len then
      match event with
      | .sent count => min count len :: sendCounts b len rest (addSize total (min count len)) v
      | .fail errorCode =>
        match retry b errorCode v with
        | .inl _ => []
        | .inr v => sendCounts b len rest total v
    else []

/-- What the kernel got is the message up to `noOfBytes`, and all of it if the loop ended
because `total` reached the length. -/
structure Sent.Faithful (msg : List Byte) (sent : Sent) : Prop where
  le : sent.result.noOfBytes ≤ msg.length
  wire : sent.wire = msg.take sent.result.noOfBytes
  whole : msg.length ≤ sent.result.noOfBytes → sent.wire = msg

section Sending

variable {b : Build} {msg : List Byte} {events : List SendEvent} {total : ℕ} {v : Attempt}
  {sent : Sent}

theorem sendCounts_le (b : Build) (len : ℕ) (events : List SendEvent) (total : ℕ) (v : Attempt) :
    ∀ k ∈ sendCounts b len events total v, k ≤ len := by
  induction events generalizing total v with
  | nil =>
    unfold sendCounts
    split_ifs <;> simp
  | cons event rest ih =>
    unfold sendCounts
    split_ifs with h
    · cases event with
      | sent count =>
        intro k hk
        rcases List.mem_cons.mp hk with rfl | hk
        · exact Nat.min_le_right _ _
        · exact ih _ _ k hk
      | fail errorCode =>
        dsimp only
        split
        · simp
        · exact ih _ _
    · simp

theorem pieces_end (msg wire : List Byte) (ht : total < 2 ^ 64) :
    wire = wire ++ pieces msg [] ∧ total = (total + ([] : List ℕ).sum) % 2 ^ 64 :=
  ⟨(List.append_nil wire).symm, (Nat.mod_eq_of_lt ht).symm⟩

/-- The loop hands over these pieces, and its `total` counts them. -/
theorem sendLoop_eq {result : Result} (out : Outbound) (ht : total < 2 ^ 64)
    (h : (sendLoop b msg events total v out).1 = .ok result) :
    (sendLoop b msg events total v out).2.wire =
        out.wire ++ pieces msg (sendCounts b msg.length events total v) ∧
      result.noOfBytes = (total + (sendCounts b msg.length events total v).sum) % 2 ^ 64 := by
  induction events generalizing total v out with
  | nil =>
    unfold sendLoop at h ⊢
    unfold sendCounts
    split_ifs at h ⊢
    · cases h
      simp [pieces, addSize]
    · cases h
      exact pieces_end msg out.wire ht
  | cons event rest ih =>
    unfold sendLoop at h ⊢
    unfold sendCounts
    split_ifs at h ⊢ with hlt
    · cases event with
      | sent count =>
        have hs : addSize total (min count msg.length) < 2 ^ 64 := Nat.mod_lt _ (by decide)
        obtain ⟨hw, hn⟩ := ih _ hs h
        refine ⟨?_, ?_⟩
        · rw [hw, pieces_cons, List.append_assoc, ← List.take_eq_take_min]
        · rw [hn, List.sum_cons, ← Nat.add_assoc]
          exact Nat.mod_add_mod _ _ _
      | fail errorCode =>
        dsimp only at h ⊢
        rcases handleError_cases b errorCode v with he | ⟨v', he, -⟩ | ⟨closed, he⟩
        · rw [he] at h
          cases h
        · simp only [he, retry] at h ⊢
          by_cases hm : 5 ≤ v'.majorFailCount
          · simp only [if_pos hm] at h ⊢
            cases h
            exact pieces_end msg out.wire ht
          · simp only [if_neg hm] at h ⊢
            exact ih _ ht h
        · simp only [he, retry] at h ⊢
          cases h
          exact pieces_end msg out.wire ht
    · cases h
      exact pieces_end msg out.wire ht

theorem sendRaw_ok (h : sendRaw b msg events = .ok sent) :
    (sendLoop b msg events 0 {} ⟨[], []⟩).1 = .ok sent.result ∧
      (sendLoop b msg events 0 {} ⟨[], []⟩).2.wire = sent.wire := by
  rw [sendRaw] at h
  rcases hloop : sendLoop b msg events 0 {} ⟨[], []⟩ with ⟨stop | result, out⟩
  · rw [hloop] at h
    cases h
  · rw [hloop] at h
    cases h
    exact ⟨rfl, rfl⟩

theorem sendRaw_eq (h : sendRaw b msg events = .ok sent) :
    sent.wire = pieces msg (sendCounts b msg.length events 0 {}) ∧
      sent.result.noOfBytes = (sendCounts b msg.length events 0 {}).sum % 2 ^ 64 := by
  obtain ⟨hresult, hwire⟩ := sendRaw_ok h
  have heq := sendLoop_eq ⟨[], []⟩ (by decide) hresult
  rwa [hwire, List.nil_append, Nat.zero_add] at heq

theorem sendCounts_whole (hlen : msg.length < 2 ^ 64)
    (hw : ∀ k ∈ sendCounts b msg.length events 0 v, k = msg.length) :
    sendCounts b msg.length events 0 v = [] ∨ sendCounts b msg.length events 0 v = [msg.length] := by
  induction events generalizing v with
  | nil =>
    unfold sendCounts
    split_ifs
    · exact Or.inr rfl
    · exact Or.inl rfl
  | cons event rest ih =>
    unfold sendCounts at hw ⊢
    split_ifs at hw ⊢
    · cases event with
      | sent count =>
        have hcount := hw _ List.mem_cons_self
        have hdone : sendCounts b msg.length rest (addSize 0 (min count msg.length)) v = [] := by
          rw [hcount, addSize_of_lt (by omega), Nat.zero_add]
          unfold sendCounts
          split <;> rw [if_neg (lt_irrefl _)]
        dsimp only
        rw [hdone, hcount]
        exact Or.inr rfl
      | fail errorCode =>
        dsimp only at hw ⊢
        cases hretry : retry b errorCode v with
        | inl ending => exact Or.inl rfl
        | inr v' =>
          rw [hretry] at hw
          exact ih hw
    · exact Or.inl rfl

theorem sendRaw_whole (hlen : msg.length < 2 ^ 64) (h : sendRaw b msg events = .ok sent)
    (hw : ∀ k ∈ sendCounts b msg.length events 0 {}, k = msg.length)
    (hs : sent.result.isFailure = false) : sent.wire = msg := by
  obtain ⟨hwire, hn⟩ := sendRaw_eq h
  rcases sendCounts_whole hlen hw with hnone | hone
  · rw [hnone] at hn
    rw [Result.isFailure, show sent.result.noOfBytes = 0 from hn] at hs
    cases hs
  · rw [hwire, hone, pieces_cons, List.take_length]
    exact List.append_nil msg

theorem mem_of_mem_sent (h : sendRaw b msg events = .ok sent) {x : Byte} (hx : x ∈ sent.wire) :
    x ∈ msg := by
  obtain ⟨hwire, -⟩ := sendRaw_eq h
  rw [hwire] at hx
  generalize sendCounts b msg.length events 0 {} = counts at hx
  induction counts with
  | nil => exact absurd hx List.not_mem_nil
  | cons k counts ih =>
    rw [pieces_cons] at hx
    rcases List.mem_append.mp hx with hx | hx
    · exact List.mem_of_mem_take hx
    · exact ih hx

/-- **The message goes out as it is if and only if every `send` after a partial one finds
at its start what it should have gone on with.** -/
theorem sendRaw_faithful (hlen : msg.length < 2 ^ 64) (h : sendRaw b msg events = .ok sent) :
    sent.Faithful msg ↔ Resumes msg (sendCounts b msg.length events 0 {}) := by
  have hle := sendCounts_le b msg.length events 0 {}
  obtain ⟨hw, hn⟩ := sendRaw_eq h
  constructor
  · intro hf
    apply resumes_of_prefix hle
    rw [← hw, hf.wire]
    exact List.take_prefix _ _
  · intro hr
    obtain ⟨hsum, heq⟩ := hr.pieces_eq hle
    rw [Nat.mod_eq_of_lt (by omega)] at hn
    refine ⟨by omega, by rw [hw, heq, hn], fun hfull => ?_⟩
    rw [hw, heq, List.take_of_length_le (by omega)]

/-- A `SEND` whose frame goes out in one piece. -/
theorem sendRaw_faithful_send :
    (⟨{ noOfBytes := 6 }, [0, 4] ++ Commands.send⟩ : Sent).Faithful ([0, 4] ++ Commands.send) ↔
      Resumes ([0, 4] ++ Commands.send)
        (sendCounts ⟨true, .little⟩ ([0, 4] ++ Commands.send).length [.fail .eagain, .sent 6] 0 {}) :=
  sendRaw_faithful (by decide) (by decide)

/-- Two bytes of a frame are taken, and then the frame from its start. -/
theorem sendRaw_repeats :
    ¬∀ (b : Build) (msg : List Byte) (events : List SendEvent) (sent : Sent), 0 < msg.length →
      (∀ count, .sent count ∈ events → 1 ≤ count ∧ count ≤ msg.length) →
      sendRaw b msg events = .ok sent → sent.Faithful msg := by
  intro h
  have hf := h ⟨true, .little⟩ ([0, 4] ++ Commands.send) [.sent 2, .sent 6]
    ⟨{ noOfBytes := 8 }, [0, 4, 0, 4] ++ Commands.send⟩ (by decide)
    (by
      intro count hc
      simp only [List.mem_cons, SendEvent.sent.injEq, List.not_mem_nil, or_false] at hc
      rcases hc with rfl | rfl <;> decide)
    (by decide)
  exact absurd hf.le (by decide)

end Sending

end PollServer
